import Unotu.Filter.Chain

/-!
# The value that OUT returns

When the graph nodes point to the placed objects, `fn_out::OutputGet` returns the value that
the chain of literals below it carries. `ParentGraphNode` points to graph nodes that hold
sliced objects, whose `OutputGet` is the one of `filter_node`, and no value gets through.
-/

set_option autoImplicit false

namespace Unotu.Filter

open Unotu.Graph Relation

/-- One call of `OutputGet`. -/
structure Call where
  depth : Nat
  world : World
  node : FilterId

namespace World

/-- The first call makes the second one, for a predecessor, after those before it in the set
have returned. -/
inductive Calls : Call → Call → Prop where
  | input {depth : Nat} {w w' : World} {f : FilterId} {node : FilterNode} {n m : NodeId}
      {before after : List NodePtr} {Output : List (Option ParamId)}
      (hf : w.filters f = some node) (hkind : node.kind ≠ .filterNode)
      (hparent : w.parentNodeGet node = .obj n)
      (hset : (w.heap.connectedIncomingGet n).elems = before ++ .obj m :: after)
      (hbefore : collectOutputs (outputGet depth) w before = .ok (w', Output)) :
      Calls ⟨depth + 1, w, f⟩ ⟨depth, w', .data m⟩

/-- `OutputGet` returns an `fnp_boolean` of value `b` and leaves `w'`. Each visited node has
what it returned as its `CachedOutput`, and each predecessor is evaluated by the `OutputGet`
of the class it was placed as. -/
structure Delivers (d : NodeData) (w : World) (depth : Nat) (f : FilterId) (b : Bool)
    (w' : World) : Prop where
  value : ∃ q, w.outputGet depth f = .ok (w', some q) ∧ w'.store q = some (.boolean b)
  cached : ∀ c, ReflTransGen Calls ⟨depth, w, f⟩ c → ∃ w'' q,
    c.world.outputGet c.depth c.node = .ok (w'', some q) ∧ w'.cachedOutputOf c.node = some q
  ownKind : ∀ c m, TransGen Calls ⟨depth, w, f⟩ c → c.node = .data m →
    c.world.kindOf m = w.placedKind d m

/-- A single predecessor that ends a chain of placed literals gives its reference value, twice
in a row; with any other number of predecessors `OUT` throws and its cached output stays. -/
structure OutLaw (d : NodeData) (w : World) (n : NodeId) : Prop where
  carried : ∀ p, w.shape.preds n = [p] → (w.placedShape d).FedByLiterals n →
    ∃ b, (w.placedShape d).ReferenceValue p b ∧ ∃ needed, ∀ depth, needed ≤ depth →
      ∃ w₁ w₂, Delivers d w depth (d.object n) b w₁ ∧ Delivers d w₁ depth (d.object n) b w₂
  refused : (w.shape.preds n).length ≠ 1 → ∃ needed, ∀ depth, needed ≤ depth →
    ∃ w' What, w.outputGet depth (d.object n) = .error (w', .userError What (d.object n)) ∧
      w.Untouched w' (d.object n)

/-- `OUT` has a single predecessor and is fed by a chain of placed literals. -/
def FedByChain (d : NodeData) (w : World) (n : NodeId) : Prop :=
  (∃ p, w.shape.preds n = [p]) ∧ (w.placedShape d).FedByLiterals n

variable {d : NodeData} {w : World}

theorem outputGet_out (h : w.Laid d) {n : NodeId} (hn : w.heap.isLive n)
    (hout : w.placedKind d n = .fnOut) (depth : Nat) :
    w.outputGet (depth + 1) (d.object n) =
      collectOutputs (outputGet depth) w ((w.shape.preds n).map .obj) >>= fun r =>
        r.1.outResult (d.object n) r.2 := by
  obtain ⟨node, hnode, hparent⟩ := h.objects n hn
  have hclass : node.kind = .fnOut := by
    simpa [placedKind, hnode] using hout
  simp only [outputGet, hnode, hclass, inputParametersGet_eq h.ready.sound hn hparent]

theorem outResult_many (w : World) (f : FilterId) {Parameters : List (Option ParamId)}
    (hmany : Parameters.length ≠ 1) :
    ∃ What, w.outResult f Parameters = .error (w, .userError What f) := by
  rcases Parameters with _ | ⟨P, _ | ⟨P', Parameters⟩⟩
  · exact ⟨_, rfl⟩
  · exact absurd rfl hmany
  · exact ⟨_, rfl⟩

/-! ## Graphs of values -/

/-- A sliced predecessor returns null and changes nothing. -/
theorem collectOutputs_sliced (h : w.Ready) {ps : List NodeId} (hlive : ∀ p ∈ ps, w.heap.isLive p)
    (hplain : ∀ p, w.kindOf p = .filterNode) (depth : Nat) :
    collectOutputs (outputGet (depth + 1)) w (ps.map .obj) = .ok (w, ps.map fun _ => none) := by
  induction ps with
  | nil => rfl
  | cons p ps ih =>
    obtain ⟨node, hnode, -⟩ := h.wired p (hlive p List.mem_cons_self)
    have hclass : node.kind = .filterNode := by
      simpa [kindOf, hnode] using hplain p
    have hcall : w.outputGet (depth + 1) (.data p) = .ok (w, none) := by
      simp only [outputGet, hnode, hclass]
    have hrest := ih fun q hq => hlive q (List.mem_cons_of_mem p hq)
    simp only [List.map_cons, collectOutputs, hcall, hrest, bind, Except.bind]

theorem outputGet_sliced (h : w.Laid .filterNode) {n : NodeId} (hn : w.heap.isLive n)
    (hout : w.placedKind .filterNode n = .fnOut) (depth : Nat) :
    w.outputGet (depth + 2) (.copy n) =
      w.outResult (.copy n) ((w.shape.preds n).map fun _ => none) := by
  have hlive : ∀ p ∈ w.shape.preds n, w.heap.isLive p := fun p hp =>
    isLive_of_mem_preds h.ready.sound hn hp
  have hcall := outputGet_out h hn hout (depth + 1)
  rw [collectOutputs_sliced h.ready hlive (h.sliced rfl)] at hcall
  exact hcall

theorem sliced_outLaw_iff (h : w.Laid .filterNode) {n : NodeId} (hn : w.heap.isLive n)
    (hout : w.placedKind .filterNode n = .fnOut) :
    OutLaw .filterNode w n ↔ ¬ w.FedByChain .filterNode n := by
  constructor
  · rintro hlaw ⟨⟨p, hp⟩, hfed⟩
    obtain ⟨b, -, needed, hdelivers⟩ := hlaw.carried p hp hfed
    obtain ⟨w₁, w₂, hfirst, -⟩ := hdelivers (needed + 2) (Nat.le_add_right needed 2)
    obtain ⟨q, hcall, -⟩ := hfirst.value
    -- the only parameter is a null pointer
    have hsliced := outputGet_sliced h hn hout needed
    rw [hp] at hsliced
    change w.outputGet (needed + 2) (.copy n) = .ok (w₁, some q) at hcall
    rw [hcall] at hsliced
    cases hsliced
  · intro hnot
    refine ⟨?_, ?_⟩
    · intro p hp hfed
      exact absurd ⟨⟨p, hp⟩, hfed⟩ hnot
    · intro hmany
      refine ⟨2, ?_⟩
      intro depth hdepth
      obtain ⟨e, rfl⟩ := Nat.exists_eq_add_of_le' hdepth
      have hlength : ((w.shape.preds n).map fun _ => (none : Option ParamId)).length ≠ 1 := by
        rwa [List.length_map]
      obtain ⟨What, hresult⟩ := outResult_many w (.copy n) hlength
      exact ⟨w, What, (outputGet_sliced h hn hout e).trans hresult, rfl, fun _ _ => rfl⟩

/-! ## Graphs of pointers -/

theorem calls_cases (h : w.Ready) {f : FilterId} {node : FilterNode} (hf : w.filters f = some node)
    {n : NodeId} (hparent : node.parentGraphNode = some n) (hn : w.heap.isLive n) {depth : Nat}
    {c : Call} (hcalls : Calls ⟨depth, w, f⟩ c) :
    ∃ e before m after w' Output, depth = e + 1 ∧ w.shape.preds n = before ++ m :: after ∧
      collectOutputs (outputGet e) w (before.map .obj) = .ok (w', Output) ∧
      c = ⟨e, w', .data m⟩ := by
  cases hcalls with
  | @input e _ w' _ node' n' m before after Output hf' hkind hparent' hset hbefore =>
    rw [hf] at hf'
    cases hf'
    rw [parentNodeGet_eq hn hparent] at hparent'
    cases hparent'
    rw [connected_eq_map h.sound hn, List.map_eq_append_iff] at hset
    obtain ⟨before', rest, hpreds, rfl, hrest⟩ := hset
    obtain ⟨m', after', rfl, hm, -⟩ := List.map_eq_cons_iff.mp hrest
    cases hm
    exact ⟨e, before', m, after', w', Output, rfl, hpreds, hbefore, rfl⟩

/-- A node with one predecessor makes one call, in the world it was called in. -/
theorem calls_single (h : w.Ready) {f : FilterId} {node : FilterNode}
    (hf : w.filters f = some node) {n p : NodeId} (hparent : node.parentGraphNode = some n)
    (hn : w.heap.isLive n) (hpreds : w.shape.preds n = [p]) {depth : Nat} {c : Call}
    (hcalls : Calls ⟨depth + 1, w, f⟩ c) : c = ⟨depth, w, .data p⟩ := by
  obtain ⟨e, before, m, after, w', Output, hdepth, hsplit, hbefore, rfl⟩ :=
    calls_cases h hf hparent hn hcalls
  cases hdepth
  rw [hpreds] at hsplit
  cases before with
  | nil =>
    cases hsplit
    cases hbefore
    rfl
  | cons x before => simp at hsplit

/-- Every call below a chain is in the world where the chain was called, and after the chain
has returned its node caches what the call returns. -/
theorem visited_chain (h : w.Ready) {p : NodeId} {c : List NodeId} (hc : w.shape.Chain p c)
    (hp : w.heap.isLive p) {depth : Nat} (hdepth : c.length ≤ depth) {w' : World}
    {P : Option ParamId} (hcall : w.outputGet depth (.data p) = .ok (w', P)) {v : Call}
    (hv : ReflTransGen Calls ⟨depth, w, .data p⟩ v) :
    v.world = w ∧ ∃ m ∈ c, v.node = .data m ∧ ∃ w'' r,
      w.outputGet v.depth (.data m) = .ok (w'', some r) ∧ w'.cachedOutputOf (.data m) = some r := by
  induction hc generalizing depth w' P with
  | @start p hkind hpreds =>
    obtain ⟨-, q, rfl, hcached⟩ := outputGet_chain_ok h (.start hkind hpreds) hp hcall
    rcases hv.cases_head with rfl | ⟨v', hstep, -⟩
    · exact ⟨rfl, p, List.mem_singleton_self p, rfl, w', q, hcall, hcached⟩
    · obtain ⟨node, hnode, hparent⟩ := h.wired p hp
      obtain ⟨e, before, m, after, -, -, -, hsplit, -⟩ := calls_cases h hnode hparent hp hstep
      simp [hpreds] at hsplit
  | @pass p q c hkind hpreds hc ih =>
    obtain ⟨-, r, rfl, hcached⟩ := outputGet_chain_ok h (.pass hkind hpreds hc) hp hcall
    rcases hv.cases_head with rfl | ⟨v', hstep, hrest⟩
    · exact ⟨rfl, p, List.mem_cons_self, rfl, w', r, hcall, hcached⟩
    · obtain ⟨e, rfl⟩ := Nat.exists_eq_succ_of_ne_zero (Nat.ne_of_gt (Nat.zero_lt_of_lt hdepth))
      obtain ⟨node, hnode, hparent⟩ := h.wired p hp
      obtain rfl := calls_single h hnode hparent hp hpreds hstep
      have hq : w.heap.isLive q := isLive_of_mem_preds h.sound hp (by simp [hpreds])
      have hlength := Nat.le_of_succ_le_succ hdepth
      obtain ⟨w₁, r₁, hcall₁, hrefreshed, hr₁⟩ := outputGet_chain h hc hq hlength
      obtain ⟨hworld, m, hm, hnodem, w'', r', hcallm, hcachedm⟩ := ih hq hlength hcall₁ hrest
      refine ⟨hworld, m, List.mem_cons_of_mem p hm, hnodem, w'', r', hcallm, ?_⟩
      obtain ⟨w₂, hcall₂, -, -, hothers⟩ :=
        outputGet_pass h hp hkind hpreds hc hcall₁ hrefreshed hr₁
      rw [hcall] at hcall₂
      cases hcall₂
      have hne : m ≠ p := fun heq => (Shape.Chain.pass hkind hpreds hc).notMem_tail (heq ▸ hm)
      exact (hothers (.data m) (by simpa using hne)).cachedOutputOf.trans hcachedm

theorem not_out_of_literal {S : Shape} {n m : NodeId} (hout : S.kind n = .fnOut)
    (hm : S.kind m = .fnBooleanLiteral) : FilterId.data n ≠ .data m := by
  intro heq
  cases heq
  rw [hout] at hm
  cases hm

/-- `OUT` caches the value that the chain below it has returned. -/
theorem outputGet_out_chain (h : w.Laid .filterNodePointer) {n p : NodeId} (hn : w.heap.isLive n)
    (hout : w.shape.kind n = .fnOut) (hpreds : w.shape.preds n = [p]) {c : List NodeId}
    (hc : w.shape.Chain p c) {depth : Nat} (hdepth : c.length ≤ depth) :
    ∃ w₁ q w₂ r, w.outputGet depth (.data p) = .ok (w₁, some q) ∧
      w.outputGet (depth + 1) (.data n) = .ok (w₂, some r) ∧ Keeps w w₂ ∧ w₂.Owned ∧
      w₂.store r = some (.boolean true) ∧ w₂.cachedOutputOf (.data n) = some r ∧
      ∀ g, g ≠ .data n → w₁.Untouched w₂ g := by
  have hp : w.heap.isLive p := isLive_of_mem_preds h.ready.sound hn (by simp [hpreds])
  obtain ⟨w₁, q, hcall₁, hrefreshed, hq⟩ := outputGet_chain h.ready hc hp hdepth
  obtain ⟨node, hnode, -⟩ := h.ready.wired n hn
  obtain ⟨k, hnode₁⟩ := hrefreshed.keeps.exists_filter hnode
  obtain ⟨w₂, hcache, howned, hkeeps, -, hcached, hstore, hothers⟩ :=
    cacheBoolean_spec hrefreshed.owned hnode₁ true
  have hcast := hrefreshed.castBoolean ((hc.mem_iff p).mpr .refl) hq
  refine ⟨w₁, q, w₂, w₁.nextParam, hcall₁, ?_, hrefreshed.keeps.trans hkeeps, howned, hstore,
    hcached, hothers⟩
  have hget := outputGet_out h hn hout depth
  rw [hpreds] at hget
  refine hget.trans ?_
  simp only [List.map_cons, List.map_nil, collectOutputs, hcall₁, bind, Except.bind, outResult,
    hcast]
  exact hcache

/-- `OUT` above a chain of literals returns the value of the chain, each visited node caches
what it returned, and the graph is as it was. -/
theorem out_delivers (h : w.Laid .filterNodePointer) {n p : NodeId} (hn : w.heap.isLive n)
    (hout : w.shape.kind n = .fnOut) (hpreds : w.shape.preds n = [p]) {c : List NodeId}
    (hc : w.shape.Chain p c) {depth : Nat} (hdepth : c.length ≤ depth) :
    ∃ w', Delivers .filterNodePointer w (depth + 1) (.data n) true w' ∧
      w'.Laid .filterNodePointer ∧ w'.shape = w.shape ∧ w'.heap = w.heap := by
  obtain ⟨w₁, q, w₂, r, hcall₁, hcall, hkeeps, howned, hstore, hcached, hothers⟩ :=
    outputGet_out_chain h hn hout hpreds hc hdepth
  obtain ⟨node, hnode, hparent⟩ := h.ready.wired n hn
  have hp : w.heap.isLive p := isLive_of_mem_preds h.ready.sound hn (by simp [hpreds])
  have hstep : ∀ v, Calls ⟨depth + 1, w, .data n⟩ v → v = ⟨depth, w, .data p⟩ := fun v hv =>
    calls_single h.ready hnode hparent hn hpreds hv
  have hbelow : ∀ v, ReflTransGen Calls ⟨depth, w, .data p⟩ v →
      v.world = w ∧ ∃ m, v.node = .data m ∧ ∃ w'' r',
        w.outputGet v.depth (.data m) = .ok (w'', some r') ∧
        w₂.cachedOutputOf (.data m) = some r' := by
    intro v hv
    obtain ⟨hworld, m, hm, hnodem, w'', r', hcallm, hcachedm⟩ :=
      visited_chain h.ready hc hp hdepth hcall₁ hv
    have hne := (not_out_of_literal hout (hc.literal m hm)).symm
    exact ⟨hworld, m, hnodem, w'', r', hcallm, (hothers _ hne).cachedOutputOf.trans hcachedm⟩
  refine ⟨w₂, ⟨⟨r, hcall, hstore⟩, ?_, ?_⟩, h.keeps hkeeps howned, hkeeps.shape, hkeeps.heap⟩
  · intro v hv
    rcases hv.cases_head with rfl | ⟨v', hv', hrest⟩
    · exact ⟨w₂, r, hcall, hcached⟩
    · obtain rfl := hstep v' hv'
      obtain ⟨hworld, m, hnodem, w'', r', hcallm, hcachedm⟩ := hbelow v hrest
      rw [hworld, hnodem]
      exact ⟨w'', r', hcallm, hcachedm⟩
  · intro v m hv hm
    obtain ⟨v', hv', hrest⟩ := TransGen.head'_iff.mp hv
    obtain rfl := hstep v' hv'
    obtain ⟨hworld, -⟩ := hbelow v hrest
    rw [hworld]
    rfl

theorem pointer_outLaw (h : w.Laid .filterNodePointer) {n : NodeId} (hn : w.heap.isLive n)
    (hout : w.shape.kind n = .fnOut) (hfed : w.shape.FedByLiterals n) :
    OutLaw .filterNodePointer w n := by
  obtain ⟨chain, hall⟩ := h.exists_chains hn hfed
  refine ⟨?_, ?_⟩
  · intro p hpreds _
    have hc := hall p (by simp [hpreds])
    refine ⟨true, hc.referenceValue, (chain p).length + 1, ?_⟩
    intro depth hdepth
    obtain ⟨e, rfl⟩ := Nat.exists_eq_succ_of_ne_zero (Nat.ne_of_gt (Nat.zero_lt_of_lt hdepth))
    have hlength := Nat.le_of_succ_le_succ hdepth
    obtain ⟨w₁, hfirst, hlaid, hshape, hheap⟩ := out_delivers h hn hout hpreds hc hlength
    rw [← hshape] at hout hpreds hc
    rw [← hheap] at hn
    obtain ⟨w₂, hsecond, -⟩ := out_delivers hlaid hn hout hpreds hc hlength
    exact ⟨w₁, w₂, hfirst, hsecond⟩
  · intro hmany
    have hlive : ∀ p ∈ w.shape.preds n, w.heap.isLive p := fun p hp =>
      isLive_of_mem_preds h.ready.sound hn hp
    refine ⟨((w.shape.preds n).map chain).flatten.length + 1, ?_⟩
    intro depth hdepth
    obtain ⟨e, rfl⟩ := Nat.exists_eq_succ_of_ne_zero (Nat.ne_of_gt (Nat.zero_lt_of_lt hdepth))
    have hlength : ∀ p ∈ w.shape.preds n, (chain p).length ≤ e := fun p hp =>
      (length_le_flatten chain hp).trans (Nat.le_of_succ_le_succ hdepth)
    obtain ⟨w', Output, hcalls, hrefreshed, hcount⟩ :=
      collectOutputs_chains h.ready hall hlive hlength
    obtain ⟨What, hresult⟩ := outResult_many w' (.data n) (hcount ▸ hmany)
    refine ⟨w', What, ?_, ?_⟩
    · refine (outputGet_out h hn hout e).trans ?_
      simp only [hcalls, bind, Except.bind]
      exact hresult
    · apply hrefreshed.others
      intro m hm
      obtain ⟨p, hp, hmc⟩ := List.mem_flatMap.mp hm
      exact not_out_of_literal hout ((hall p hp).literal m hmc)

/-! ## Runs -/

/-- In every state that a run reaches: over graph nodes that hold filter nodes by value, as
`ParentGraphNode` has them, `OUT` keeps its law exactly when it is not fed by one chain; over
graph nodes that point to them it keeps the law wherever it is fed by literals. -/
theorem run_outLaw_iff (ops : List PlaceOp) :
    Runs.Along (perform .filterNode) (fun w => ∀ n, w.heap.isLive n →
      w.placedKind .filterNode n = .fnOut →
        (OutLaw .filterNode w n ↔ ¬ w.FedByChain .filterNode n)) World.empty ops ∧
    Runs.Along (perform .filterNodePointer) (fun w => ∀ n, w.heap.isLive n →
      w.placedKind .filterNodePointer n = .fnOut →
        (w.placedShape .filterNodePointer).FedByLiterals n →
          OutLaw .filterNodePointer w n) World.empty ops := by
  refine ⟨?_, ?_⟩
  · intro before w _ hrun n hn hout
    exact sliced_outLaw_iff (run_laid hrun) hn hout
  · intro before w _ hrun n hn hout hfed
    exact pointer_outLaw (run_laid hrun) hn hout hfed

/-- A literal connected to `OUT`. -/
def literalInput : List PlaceOp :=
  [.build (.makeGraph 0), .build (.makeFilter 0 fnBooleanLiteral), .build (.makeFilter 1 fnOut),
    .build (.nodeAdd 0 0), .build (.nodeAdd 0 1), .build (.connectTo 0 (.obj 1) 0)]

/-- The literal is sliced, `OUT` gets a null pointer from it and fails its assertion. -/
theorem sliced_literal_fails_assertion :
    ∃ w, Runs.run (perform .filterNode) World.empty literalInput = .ok w ∧ w.heap.isLive 1 ∧
      w.placedKind .filterNode 1 = .fnOut ∧ w.placedKind .filterNode 0 = .fnBooleanLiteral ∧
      w.kindOf 0 = .filterNode ∧ w.FedByChain .filterNode 1 ∧
      w.outputGet 2 (.copy 1) = .error (w, .fault (.assertion
        "The only 'OUT' node parameter should be a boolean parameter.")) ∧
      ¬ OutLaw .filterNode w 1 := by
  have hrun : ∃ w, Runs.run (perform .filterNode) World.empty literalInput = .ok w ∧
      w.heap.isLive 1 ∧ w.placedKind .filterNode 1 = .fnOut ∧
      w.placedKind .filterNode 0 = .fnBooleanLiteral ∧ w.kindOf 0 = .filterNode ∧
      (w.placedShape .filterNode).preds 0 = [] ∧ w.shape.preds 1 = [0] ∧
      w.outputGet 2 (.copy 1) = .error (w, .fault (.assertion
        "The only 'OUT' node parameter should be a boolean parameter.")) :=
    ⟨_, rfl, rfl, rfl, rfl, rfl, rfl, rfl, rfl⟩
  obtain ⟨w, hw, hlive, hout, hliteral, hsliced, hpreds0, hpreds1, hcall⟩ := hrun
  have hfed : w.FedByChain .filterNode 1 := by
    refine ⟨⟨0, hpreds1⟩, ?_⟩
    apply Shape.fedByLiterals_of_chains
    intro p hp
    change p ∈ w.shape.preds 1 at hp
    rw [hpreds1, List.mem_singleton] at hp
    subst p
    exact ⟨_, .start hliteral hpreds0⟩
  refine ⟨w, hw, hlive, hout, hliteral, hsliced, hfed, hcall, ?_⟩
  rw [sliced_outLaw_iff (run_laid hw) hlive hout]
  exact fun hnot => hnot hfed

end World

end Unotu.Filter
