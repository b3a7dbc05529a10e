import Unotu.Filter.Node
import Unotu.Graph.Adjacency
import Unotu.Library.Demand

/-!
# The meaning of an evaluation

A filter graph is seen by its evaluator as a shape: the class of each node and the list of
its predecessors. The value of a node is computed from the shape alone, and `OutputGet`
on a wired world, with its cached outputs, simulates that computation at every depth.
-/

set_option autoImplicit false

namespace Unotu.Filter

open Unotu.Graph

/-- What an evaluation depends on. -/
structure Shape where
  kind : NodeId → FilterKind
  preds : NodeId → List NodeId

/-- The value of an output pointer; `none` is the null pointer of a plain `filter_node`. -/
abbrev Value := Option Bool

namespace Shape

/-- The nodes that a node evaluates; a plain one does not look at its inputs. -/
def deps (S : Shape) (n : NodeId) : List NodeId :=
  match S.kind n with
  | .filterNode => []
  | _ => S.preds n

def combine (S : Shape) (n : NodeId) (inputs : List Value) : Except Stop Value :=
  match S.kind n, inputs with
  | .filterNode, _ => .ok none
  | .fnOut, [] => .error (.userError "OUT requires a checkmark parameter." (.data n))
  | .fnOut, [none] => .error (.fault (.assertion
      "The only 'OUT' node parameter should be a boolean parameter."))
  | .fnOut, [some b] => .ok (some b)
  | .fnOut, _ => .error (.userError
      "OUT requires only one parameter, which should be a checkmark." (.data n))
  | .fnBooleanLiteral, [] => .ok (some true)
  | .fnBooleanLiteral, [none] => .error (.fault (.assertion
      "'fn_boolean_literal' only accepts boolean parameters."))
  | .fnBooleanLiteral, [some b] => .ok (some b)
  | .fnBooleanLiteral, _ =>
    .error (.fault (.assertion "Multiple parameters for boolean literal."))

def evaluate (S : Shape) : Nat → NodeId → Option (Except Stop Value) :=
  Demand.eval S.deps S.combine

end Shape

namespace World

/-- Null pointers are never in the set of a sound heap. -/
def nodesOf : List NodePtr → List NodeId
  | [] => []
  | .null :: Connected => nodesOf Connected
  | .obj m :: Connected => m :: nodesOf Connected

def kindOf (w : World) (n : NodeId) : FilterKind :=
  match w.filters (.data n) with
  | none => .filterNode
  | some node => node.kind

def shape (w : World) : Shape where
  kind := w.kindOf
  preds n := nodesOf (w.heap.connectedIncomingGet n).elems

/-! ## Invariants -/

/-- The cached outputs are in the store, no two nodes share one, and identities from
`nextParam` on have not been used. -/
structure Owned (w : World) : Prop where
  stored : ∀ f node p, w.filters f = some node → node.cachedOutput = some p →
    ∃ P, w.store p = some P
  sole : ∀ f g node node' p, w.filters f = some node → w.filters g = some node' →
    node.cachedOutput = some p → node'.cachedOutput = some p → f = g
  fresh : ∀ p, w.nextParam ≤ p → w.store p = none

def Wired (w : World) : Prop :=
  ∀ n, w.heap.isLive n → ∃ node, w.filters (.data n) = some node ∧ node.parentGraphNode = some n

structure Ready (w : World) : Prop where
  sound : w.heap.Sound
  wired : w.Wired
  owned : w.Owned

/-- Nothing but cached outputs and parameters differs. -/
structure Keeps (w w' : World) : Prop where
  heap : w'.heap = w.heap
  filters : ∀ f, (w'.filters f).map (fun node => { node with cachedOutput := none }) =
    (w.filters f).map fun node => { node with cachedOutput := none }

theorem Keeps.refl (w : World) : Keeps w w := ⟨rfl, fun _ => rfl⟩

theorem Keeps.trans {w w' w'' : World} (h : Keeps w w') (h' : Keeps w' w'') : Keeps w w'' :=
  ⟨h'.heap.trans h.heap, fun f => (h'.filters f).trans (h.filters f)⟩

theorem Keeps.exists_filter {w w' : World} (h : Keeps w w') {f : FilterId} {node : FilterNode}
    (hf : w.filters f = some node) :
    ∃ c, w'.filters f = some { node with cachedOutput := c } := by
  have hmap := h.filters f
  rw [hf, Option.map_some] at hmap
  cases hf' : w'.filters f with
  | none => simp [hf'] at hmap
  | some node' =>
    refine ⟨node'.cachedOutput, ?_⟩
    rw [hf', Option.map_some, Option.some.injEq] at hmap
    cases node'
    cases node
    simp_all

theorem Keeps.kindOf {w w' : World} (h : Keeps w w') (n : NodeId) : w'.kindOf n = w.kindOf n := by
  unfold World.kindOf
  cases hf : w.filters (.data n) with
  | none =>
    have hmap := h.filters (.data n)
    rw [hf, Option.map_none, Option.map_eq_none_iff] at hmap
    rw [hmap]
  | some node =>
    obtain ⟨c, hc⟩ := h.exists_filter hf
    rw [hc]

theorem Keeps.shape {w w' : World} (h : Keeps w w') : w'.shape = w.shape := by
  have hkind : w'.kindOf = w.kindOf := funext h.kindOf
  simp only [World.shape, hkind, h.heap]

theorem Ready.keeps {w w' : World} (h : Ready w) (hk : Keeps w w') (ho : w'.Owned) : Ready w' where
  sound := by
    rw [hk.heap]
    exact h.sound
  wired n hn := by
    rw [hk.heap] at hn
    obtain ⟨node, hnode, hparent⟩ := h.wired n hn
    obtain ⟨c, hc⟩ := hk.exists_filter hnode
    exact ⟨_, hc, hparent⟩
  owned := ho

/-! ## Storing a result -/

theorem setFilter_filters (w : World) (f g : FilterId) (node : Option FilterNode) :
    (w.setFilter f node).filters g = if g = f then node else w.filters g := by
  simp [setFilter, Function.update_apply]

theorem deleteParameter_owned {w : World} (h : w.Owned) {f : FilterId} {node : FilterNode}
    (hf : w.filters f = some node) :
    ∃ w', w.deleteParameter node.cachedOutput = .ok w' ∧ w'.heap = w.heap ∧
      w'.filters = w.filters ∧ w'.nextParam = w.nextParam ∧
      (∀ p, node.cachedOutput = some p → w'.store p = none) ∧
      ∀ p, node.cachedOutput ≠ some p → w'.store p = w.store p := by
  cases hc : node.cachedOutput with
  | none => exact ⟨w, rfl, rfl, rfl, rfl, by simp, fun _ _ => rfl⟩
  | some p =>
    obtain ⟨P, hP⟩ := h.stored f node p hf hc
    refine ⟨{ w with store := Function.update w.store p none }, ?_, rfl, rfl, rfl, ?_, ?_⟩
    · simp only [deleteParameter, hP]
    · intro q hq
      cases hq
      exact Function.update_self ..
    · intro q hq
      have hne : q ≠ p := fun heq => hq (by rw [heq])
      exact Function.update_of_ne hne ..

/-- The cached output of `f` is deleted and another node put in its place, which may bring a
parameter that nobody has cached yet. -/
theorem replace_owned {w : World} (h : w.Owned) {f : FilterId} {node : FilterNode}
    (hf : w.filters f = some node) {new : Option FilterNode}
    (hnew : ∀ node' p, new = some node' → node'.cachedOutput = some p →
      (∃ P, w.store p = some P) ∧
        ∀ g node'', w.filters g = some node'' → node''.cachedOutput ≠ some p) :
    ∃ w', w.deleteParameter node.cachedOutput = .ok w' ∧ (w'.setFilter f new).Owned ∧
      w'.heap = w.heap ∧ w'.filters = w.filters ∧
      (∀ p, node.cachedOutput = some p → w'.store p = none) ∧
      ∀ p, node.cachedOutput ≠ some p → w'.store p = w.store p := by
  obtain ⟨w₁, hdelete, hheap, hfilters, hnext, hgone, hstay⟩ := deleteParameter_owned h hf
  refine ⟨w₁, hdelete, ⟨?_, ?_, ?_⟩, hheap, hfilters, hgone, hstay⟩
  · intro g node' p hg hp
    rw [setFilter_filters, hfilters] at hg
    change ∃ P, w₁.store p = some P
    split at hg
    · obtain ⟨⟨P, hP⟩, hnone⟩ := hnew node' p hg hp
      exact ⟨P, by rw [hstay p (hnone f node hf), hP]⟩
    · rename_i hgf
      obtain ⟨P, hP⟩ := h.stored g node' p hg hp
      have hne : node.cachedOutput ≠ some p := fun hnode => hgf (h.sole g f node' node p hg hf hp hnode)
      exact ⟨P, by rw [hstay p hne, hP]⟩
  · intro g g' node₁ node₂ p hg hg' hp hp'
    rw [setFilter_filters, hfilters] at hg hg'
    split at hg
    · rename_i hgf
      split at hg'
      · rename_i hgf'
        rw [hgf, hgf']
      · exact absurd hp' ((hnew node₁ p hg hp).2 g' node₂ hg')
    · split at hg'
      · exact absurd hp ((hnew node₂ p hg' hp').2 g node₁ hg)
      · exact h.sole g g' node₁ node₂ p hg hg' hp hp'
  · intro p hp
    change w₁.store p = none
    change w₁.nextParam ≤ p at hp
    rw [hnext] at hp
    by_cases hnode : node.cachedOutput = some p
    · exact hgone p hnode
    · rw [hstay p hnode, h.fresh p hp]

theorem cachedOutputSet_spec {w : World} (h : w.Owned) {f : FilterId} {node : FilterNode}
    (hf : w.filters f = some node) {c : Option ParamId}
    (hc : ∀ p, c = some p → (∃ P, w.store p = some P) ∧
      ∀ g node', w.filters g = some node' → node'.cachedOutput ≠ some p) :
    ∃ w', w.cachedOutputSet f c = .ok (w', c) ∧ w'.Owned ∧ Keeps w w' ∧
      ∀ p, c = some p → w'.store p = w.store p := by
  have hnew : ∀ node' p, some { node with cachedOutput := c } = some node' →
      node'.cachedOutput = some p → (∃ P, w.store p = some P) ∧
        ∀ g node'', w.filters g = some node'' → node''.cachedOutput ≠ some p := by
    intro node' p hnode' hp
    cases hnode'
    exact hc p hp
  obtain ⟨w₁, hdelete, howned, hheap, hfilters, -, hstay⟩ := replace_owned h hf hnew
  refine ⟨_, ?_, howned, ⟨hheap, ?_⟩, ?_⟩
  · simp only [cachedOutputSet, hf, hdelete]
    rfl
  · intro g
    rw [setFilter_filters, hfilters]
    split
    · rename_i hgf
      rw [hgf, hf]
      rfl
    · rfl
  · intro p hp
    exact hstay p ((hc p hp).2 f node hf)

theorem newParameter_owned {w : World} (h : w.Owned) (P : Parameter) :
    (w.newParameter P).1.Owned where
  stored f node p hf hp := by
    obtain ⟨Q, hQ⟩ := h.stored f node p hf hp
    by_cases hpn : p = w.nextParam
    · exact ⟨P, by simp [newParameter, hpn]⟩
    · exact ⟨Q, by simp [newParameter, hpn, hQ]⟩
  sole := h.sole
  fresh p hp := by
    have hlt : w.nextParam + 1 ≤ p := hp
    have hne : p ≠ w.nextParam := Nat.ne_of_gt hlt
    change Function.update w.store w.nextParam (some P) p = none
    rw [Function.update_of_ne hne]
    exact h.fresh p (Nat.le_of_succ_le hlt)

theorem cacheNew_spec {w : World} (h : w.Owned) {f : FilterId} {node : FilterNode}
    (hf : w.filters f = some node) (P : Parameter) :
    ∃ w', (w.newParameter P).1.cachedOutputSet f (some w.nextParam) = .ok (w', some w.nextParam) ∧
      w'.Owned ∧ Keeps w w' ∧ w'.store w.nextParam = some P := by
  have hstored : (w.newParameter P).1.store w.nextParam = some P := by
    simp [newParameter]
  obtain ⟨w', hset, howned, hkeeps, hstore⟩ := cachedOutputSet_spec (newParameter_owned h P)
    (f := f) hf (c := some w.nextParam) (by
      intro p hp
      cases hp
      refine ⟨⟨P, hstored⟩, ?_⟩
      intro g node' hg hp
      obtain ⟨Q, hQ⟩ := h.stored g node' _ hg hp
      rw [h.fresh _ (Nat.le_refl _)] at hQ
      cases hQ)
  exact ⟨w', hset, howned, ⟨hkeeps.heap, hkeeps.filters⟩, (hstore _ rfl).trans hstored⟩

/-! ## Simulation -/

def HasValue (w : World) : Option ParamId → Value → Prop
  | P, none => P = none
  | P, some b => ∃ p, P = some p ∧ w.store p = some (.boolean b)

/-- Only a single parameter is ever read; an earlier one of several may be gone. -/
def HaveValues (w : World) (Parameters : List (Option ParamId)) (values : List Value) : Prop :=
  Parameters.length = values.length ∧
    ∀ P v, Parameters = [P] → values = [v] → w.HasValue P v

/-- A call in `w` ends as the computation of its value says, in a ready world of the same
shape. -/
inductive Simulates {α β : Type} (w : World) (Rel : World → α → β → Prop) :
    Except Stopped (World × α) → Option (Except Stop β) → Prop where
  | deep {w' : World} (ready : Ready w') (keeps : Keeps w w') :
      Simulates w Rel (.error (w', .stackOverflow)) none
  | stop {w' : World} {e : Stop} (ready : Ready w') (keeps : Keeps w w') :
      Simulates w Rel (.error (w', e)) (some (.error e))
  | value {w' : World} {a : α} {b : β} (ready : Ready w') (keeps : Keeps w w')
      (rel : Rel w' a b) : Simulates w Rel (.ok (w', a)) (some (.ok b))

theorem cacheBoolean_simulates {w : World} (h : Ready w) {f : FilterId} {node : FilterNode}
    (hf : w.filters f = some node) (b : Bool) :
    Simulates w HasValue (w.cacheBoolean f b) (some (.ok (some b))) := by
  obtain ⟨w', hset, howned, hkeeps, hstore⟩ := cacheNew_spec h.owned hf (.boolean b)
  have hcall : w.cacheBoolean f b = .ok (w', some w.nextParam) := hset
  rw [hcall]
  exact .value (h.keeps hkeeps howned) hkeeps ⟨w.nextParam, rfl, hstore⟩

theorem Simulates.weaken {α β : Type} {w w' : World} {Rel : World → α → β → Prop}
    {r : Except Stopped (World × α)} {s : Option (Except Stop β)} (hk : Keeps w w')
    (h : Simulates w' Rel r s) : Simulates w Rel r s := by
  cases h with
  | deep ready keeps => exact .deep ready (hk.trans keeps)
  | stop ready keeps => exact .stop ready (hk.trans keeps)
  | value ready keeps rel => exact .value ready (hk.trans keeps) rel

theorem castBoolean_of_hasValue {w : World} {P : Option ParamId} {v : Value}
    (h : w.HasValue P v) : w.castBoolean P = .ok v := by
  cases v with
  | none =>
    obtain rfl : P = none := h
    rfl
  | some b =>
    obtain ⟨p, rfl, hp⟩ := h
    simp [castBoolean, hp]

theorem outResult_simulates {w : World} (h : Ready w) {n : NodeId} {node : FilterNode}
    (hf : w.filters (.data n) = some node) {S : Shape} (hkind : S.kind n = .fnOut)
    {Parameters : List (Option ParamId)} {values : List Value}
    (hvalues : w.HaveValues Parameters values) :
    Simulates w HasValue (w.outResult (.data n) Parameters) (some (S.combine n values)) := by
  obtain ⟨hlength, hsingle⟩ := hvalues
  rcases Parameters with _ | ⟨P, _ | ⟨P', Parameters⟩⟩
  · obtain rfl : values = [] := List.eq_nil_of_length_eq_zero hlength.symm
    simp only [outResult, Shape.combine, hkind]
    exact .stop h (.refl w)
  · obtain ⟨v, rfl⟩ := List.length_eq_one_iff.mp hlength.symm
    have hcast := castBoolean_of_hasValue (hsingle P v rfl rfl)
    cases v with
    | none =>
      simp only [outResult, Shape.combine, hkind, hcast]
      exact .stop h (.refl w)
    | some b =>
      simp only [outResult, Shape.combine, hkind, hcast]
      exact cacheBoolean_simulates h hf b
  · rcases values with _ | ⟨v, _ | ⟨v', values⟩⟩
    · simp at hlength
    · simp at hlength
    · simp only [outResult, Shape.combine, hkind]
      exact .stop h (.refl w)

theorem literalResult_simulates {w : World} (h : Ready w) {n : NodeId} {node : FilterNode}
    (hf : w.filters (.data n) = some node) {S : Shape} (hkind : S.kind n = .fnBooleanLiteral)
    {Parameters : List (Option ParamId)} {values : List Value}
    (hvalues : w.HaveValues Parameters values) :
    Simulates w HasValue (w.literalResult (.data n) Parameters) (some (S.combine n values)) := by
  obtain ⟨hlength, hsingle⟩ := hvalues
  rcases Parameters with _ | ⟨P, _ | ⟨P', Parameters⟩⟩
  · obtain rfl : values = [] := List.eq_nil_of_length_eq_zero hlength.symm
    simp only [literalResult, Shape.combine, hkind]
    exact cacheBoolean_simulates h hf true
  · obtain ⟨v, rfl⟩ := List.length_eq_one_iff.mp hlength.symm
    have hcast := castBoolean_of_hasValue (hsingle P v rfl rfl)
    cases v with
    | none =>
      simp only [literalResult, Shape.combine, hkind, hcast]
      exact .stop h (.refl w)
    | some b =>
      simp only [literalResult, Shape.combine, hkind, hcast]
      exact cacheBoolean_simulates h hf b
  · rcases values with _ | ⟨v, _ | ⟨v', values⟩⟩
    · simp at hlength
    · simp at hlength
    · simp only [literalResult, Shape.combine, hkind]
      exact .stop h (.refl w)

theorem collectOutputs_simulates {OutputGet : World → FilterId → Except Stopped (World × Option ParamId)}
    {ev : NodeId → Option (Except Stop Value)} {w₀ : World}
    (hcall : ∀ w n, Ready w → Keeps w₀ w → w.heap.isLive n →
      Simulates w HasValue (OutputGet w (.data n)) (ev n))
    {w : World} (h : Ready w) (hk : Keeps w₀ w) {ns : List NodeId}
    (hlive : ∀ n ∈ ns, w.heap.isLive n) :
    Simulates w HaveValues (collectOutputs OutputGet w (ns.map .obj)) (Demand.inputs ev ns) := by
  induction ns generalizing w with
  | nil => exact .value h (.refl w) ⟨rfl, by simp⟩
  | cons n ns ih =>
    have hn := hcall w n h hk (hlive n List.mem_cons_self)
    simp only [List.map_cons, collectOutputs, Demand.inputs]
    generalize OutputGet w (.data n) = r at hn ⊢
    generalize ev n = s at hn ⊢
    cases hn with
    | deep ready keeps => exact .deep ready keeps
    | stop ready keeps => exact .stop ready keeps
    | @value w' P v ready keeps rel =>
      have hrest : Simulates w' HaveValues (collectOutputs OutputGet w' (ns.map .obj))
          (Demand.inputs ev ns) := by
        apply ih ready (hk.trans keeps)
        intro m hm
        rw [keeps.heap]
        exact hlive m (List.mem_cons_of_mem _ hm)
      apply Simulates.weaken keeps
      cases ns with
      | nil =>
        refine .value ready (.refl w') ⟨rfl, ?_⟩
        intro P' v' hP hv
        cases hP
        cases hv
        exact rel
      | cons m ns =>
        have hlength : ∀ vs, Demand.inputs ev (m :: ns) = some (.ok vs) → vs ≠ [] := by
          intro vs hvs hnil
          have := Demand.inputs_length hvs
          simp [hnil] at this
        simp only [bind, Except.bind]
        generalize collectOutputs OutputGet w' ((m :: ns).map .obj) = r at hrest ⊢
        generalize hs : Demand.inputs ev (m :: ns) = s at hrest hlength ⊢
        cases hrest with
        | deep ready' keeps' => exact .deep ready' keeps'
        | stop ready' keeps' => exact .stop ready' keeps'
        | @value w'' Ps vs ready' keeps' rel' =>
          refine .value ready' keeps' ⟨by simp [rel'.1], ?_⟩
          intro P' v' hP hv
          rw [List.cons.injEq] at hv
          exact absurd hv.2 (hlength vs rfl)

/-- The set of predecessors in a sound heap has no null pointer. -/
theorem connected_eq_map {w : World} (h : w.heap.Sound) {n : NodeId} (hn : w.heap.isLive n) :
    (w.heap.connectedIncomingGet n).elems = (w.shape.preds n).map .obj := by
  obtain ⟨-, M, hrep⟩ := h
  have hobj : ∀ p ∈ (w.heap.connectedIncomingGet n).elems, ∃ m, p = .obj m := by
    intro p hp
    obtain ⟨a, rfl, -⟩ := (hrep.mem_connectedIncomingGet hn p).mp (OrderedSet.mem_elems.mp hp)
    exact ⟨a, rfl⟩
  simp only [shape]
  generalize (w.heap.connectedIncomingGet n).elems = Connected at hobj ⊢
  induction Connected with
  | nil => rfl
  | cons p Connected ih =>
    obtain ⟨m, rfl⟩ := hobj p List.mem_cons_self
    rw [nodesOf, List.map_cons, ← ih fun q hq => hobj q (List.mem_cons_of_mem _ hq)]

theorem mem_preds_iff {w : World} {M : Multigraph NodeId EdgeId} (h : w.heap.Represents M)
    {n : NodeId} (hn : w.heap.isLive n) (hs : w.heap.Sound) (m : NodeId) :
    m ∈ w.shape.preds n ↔ M.Adj m n := by
  have hmem := h.mem_connectedIncomingGet hn (.obj m)
  rw [← OrderedSet.mem_elems, connected_eq_map hs hn] at hmem
  simpa using hmem

theorem isLive_of_mem_preds {w : World} (h : w.heap.Sound) {n m : NodeId}
    (hn : w.heap.isLive n) (hm : m ∈ w.shape.preds n) : w.heap.isLive m := by
  obtain ⟨-, M, hrep⟩ := id h
  obtain ⟨e, he, rfl, -⟩ := (mem_preds_iff hrep hn h m).mp hm
  exact (hrep.nodes _).mpr (M.source_mem he)

theorem parentNodeGet_eq {w : World} {n : NodeId} (hn : w.heap.isLive n) {node : FilterNode}
    (hparent : node.parentGraphNode = some n) : w.parentNodeGet node = .obj n := by
  simp only [parentNodeGet, hparent, Heap.lock_of_isLive hn]

/-- A wired node collects from its predecessors in the order of the set. -/
theorem inputParametersGet_eq {w : World} (h : w.heap.Sound) {n : NodeId} (hn : w.heap.isLive n)
    {node : FilterNode} (hparent : node.parentGraphNode = some n)
    (OutputGet : World → FilterId → Except Stopped (World × Option ParamId)) :
    inputParametersGet OutputGet w node =
      collectOutputs OutputGet w ((w.shape.preds n).map .obj) := by
  simp only [inputParametersGet, parentNodeGet_eq hn hparent, connected_eq_map h hn]

theorem inputParametersGet_simulates {w : World} (h : Ready w) {n : NodeId}
    (hn : w.heap.isLive n) {node : FilterNode} (hparent : node.parentGraphNode = some n)
    {OutputGet : World → FilterId → Except Stopped (World × Option ParamId)}
    {ev : NodeId → Option (Except Stop Value)}
    (hcall : ∀ w' m, Ready w' → Keeps w w' → w'.heap.isLive m →
      Simulates w' HasValue (OutputGet w' (.data m)) (ev m)) :
    Simulates w HaveValues (inputParametersGet OutputGet w node)
      (Demand.inputs ev (w.shape.preds n)) := by
  rw [inputParametersGet_eq h.sound hn hparent]
  apply collectOutputs_simulates hcall h (.refl w)
  intro m hm
  exact isLive_of_mem_preds h.sound hn hm

theorem Simulates.bind {α β γ δ : Type} {w : World} {Rel : World → α → β → Prop}
    {Rel' : World → γ → δ → Prop} {r : Except Stopped (World × α)}
    {s : Option (Except Stop β)} (h : Simulates w Rel r s)
    {f : World × α → Except Stopped (World × γ)} {g : β → Except Stop δ}
    (hf : ∀ w' a b, Ready w' → Keeps w w' → Rel w' a b →
      Simulates w' Rel' (f (w', a)) (some (g b))) :
    Simulates w Rel' (r >>= f) (Demand.andThen s g) := by
  cases h with
  | deep ready keeps => exact .deep ready keeps
  | stop ready keeps => exact .stop ready keeps
  | value ready keeps rel => exact (hf _ _ _ ready keeps rel).weaken keeps

/-- `OutputGet` with its cached outputs simulates the computation from the shape. -/
theorem outputGet_simulates {w : World} (h : Ready w) {n : NodeId} (hn : w.heap.isLive n)
    (depth : Nat) :
    Simulates w HasValue (w.outputGet depth (.data n)) (w.shape.evaluate depth n) := by
  induction depth generalizing w n with
  | zero => exact .deep h (.refl w)
  | succ depth ih =>
    obtain ⟨node, hnode, hparent⟩ := h.wired n hn
    have hkind : w.shape.kind n = node.kind := by
      simp only [shape, kindOf, hnode]
    have hcall : ∀ w' m, Ready w' → Keeps w w' → w'.heap.isLive m →
        Simulates w' HasValue (w'.outputGet depth (.data m)) (w.shape.evaluate depth m) := by
      intro w' m hw' hk hm
      have hsim := ih hw' hm
      rwa [hk.shape] at hsim
    have hinputs := inputParametersGet_simulates h hn hparent hcall
    cases hclass : node.kind with
    | filterNode =>
      rw [hclass] at hkind
      simp only [outputGet, hnode, hclass, Shape.evaluate, Demand.eval, Shape.deps, hkind,
        Demand.inputs, Demand.andThen, Shape.combine]
      exact .value h (.refl w) rfl
    | fnOut =>
      rw [hclass] at hkind
      simp only [outputGet, hnode, hclass, Shape.evaluate, Demand.eval, Shape.deps, hkind]
      apply hinputs.bind
      intro w' Parameters values hready hk hvalues
      obtain ⟨c, hc⟩ := hk.exists_filter hnode
      exact outResult_simulates hready hc hkind hvalues
    | fnBooleanLiteral =>
      rw [hclass] at hkind
      simp only [outputGet, hnode, hclass, Shape.evaluate, Demand.eval, Shape.deps, hkind]
      apply hinputs.bind
      intro w' Parameters values hready hk hvalues
      obtain ⟨c, hc⟩ := hk.exists_filter hnode
      exact literalResult_simulates hready hc hkind hvalues

end World

end Unotu.Filter
