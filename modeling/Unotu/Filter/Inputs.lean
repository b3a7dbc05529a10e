import Unotu.Filter.Feeding

/-!
# The rule about inputs

`IsAcceptableParameter` admits one boolean input. Connections are made by the generic
graph, so the rule holds along a construction exactly when no `ConnectTo` breaks it, and
where it holds no assertion of an `OutputGet` fails.
-/

set_option autoImplicit false

namespace Unotu.Filter

open Unotu.Graph Relation

namespace World

variable {w w' : World} {M M' : Multigraph NodeId EdgeId}

/-- With enough stack `OutputGet` of the node returns an `fnp_boolean`. -/
def OutputsBoolean (w : World) (p : NodeId) : Prop :=
  ∃ bound, ∀ depth, bound ≤ depth →
    ∃ w' q b, w.outputGet depth (.data p) = .ok (w', some q) ∧ w'.store q = some (.boolean b)

/-- Every `fn_out` and every `fn_boolean_literal` has at most one predecessor, which outputs
a boolean, and no assertion of an evaluation fails. -/
structure InputRule (w : World) : Prop where
  single : ∀ n, w.heap.isLive n → w.kindOf n ≠ .filterNode →
    ∀ p q, p ∈ w.shape.preds n → q ∈ w.shape.preds n → p = q
  boolean : ∀ n, w.heap.isLive n → w.kindOf n ≠ .filterNode →
    ∀ p, p ∈ w.shape.preds n → w.OutputsBoolean p
  noAssertion : ∀ n, w.heap.isLive n → ∀ depth w' message,
    w.outputGet depth (.data n) ≠ .error (w', .fault (.assertion message))

/-- The condition on one operation: an edge into a node with inputs comes from a node that a
literal without input feeds, not through the destination, and no other node is connected to
the destination. -/
def KeepsInputRule (w : World) : BuildOp → Prop
  | .connectTo this (.obj d) e => w.Connects this d e → w.kindOf d ≠ .filterNode →
      (∀ p ∈ w.shape.preds d, p = this) ∧ (∃ k, w.shape.Fed this k) ∧
        ¬ ReflTransGen w.shape.Pred d this
  | _ => True

theorem outputsBoolean_iff (h : w.Built M) {p : NodeId} (hp : w.heap.isLive p) :
    w.OutputsBoolean p ↔ ∃ k, w.shape.Fed p k := by
  constructor
  · intro hout
    obtain ⟨bound, hbound⟩ := hout
    obtain ⟨w', q, b, hcall, hq⟩ := hbound bound (Nat.le_refl bound)
    have hsim := outputGet_simulates h.ready hp bound
    rw [hcall] at hsim
    generalize hs : w.shape.evaluate bound p = s at hsim
    cases hsim with
    | @value _ _ v _ _ rel =>
      rcases Shape.evaluate_eq_ok_iff.mp hs with ⟨-, -, rfl⟩ | ⟨-, k, -, hfed⟩
      · cases rel
      · exact ⟨k, hfed⟩
  · rintro ⟨k, hfed⟩
    refine ⟨k, ?_⟩
    intro depth hdepth
    have hsim := outputGet_simulates h.ready hp depth
    rw [Shape.evaluate_eq_ok_iff.mpr (Or.inr ⟨rfl, k, hdepth, hfed⟩)] at hsim
    generalize w.outputGet depth (.data p) = call at hsim
    cases hsim with
    | @value w' P _ _ _ rel =>
      obtain ⟨q, rfl, hq⟩ := rel
      exact ⟨w', q, true, rfl, hq⟩

/-! ## The rule on the multigraph -/

/-- The rule about predecessors, for the represented multigraph. -/
def RuleOn (w : World) (M : Multigraph NodeId EdgeId) : Prop :=
  ∀ n, w.kindOf n ≠ .filterNode → ∀ p q, M.Adj p n → M.Adj q n → p = q ∧ ∃ k, w.shape.Fed p k

theorem preds_nodup (h : w.Built M) {n : NodeId} (hn : w.heap.isLive n) :
    (w.shape.preds n).Nodup := by
  have hnodup := (w.heap.connectedIncomingGet n).nodup
  rw [connected_eq_map h.sound hn] at hnodup
  exact List.Nodup.of_map _ hnodup

theorem preds_perm (h : w.Built M) (h' : w'.Built M') {n : NodeId} (hn : w.heap.isLive n)
    (hn' : w'.heap.isLive n) (hadj : ∀ p, M'.Adj p n ↔ M.Adj p n) :
    (w'.shape.preds n).Perm (w.shape.preds n) := by
  rw [List.perm_ext_iff_of_nodup (preds_nodup h' hn') (preds_nodup h hn)]
  intro p
  rw [h'.mem_preds hn', h.mem_preds hn, hadj]

theorem preds_eq_singleton (h : w.Built M) {n p : NodeId} (hn : w.heap.isLive n)
    (hadj : ∀ q, M.Adj q n ↔ q = p) : w.shape.preds n = [p] := by
  rw [← List.perm_singleton, List.perm_ext_iff_of_nodup (preds_nodup h hn) (List.nodup_singleton p)]
  intro q
  rw [h.mem_preds hn, hadj, List.mem_singleton]

theorem RuleOn.preds_cases (hr : w.RuleOn M) (h : w.Built M) {n : NodeId} (hn : w.heap.isLive n)
    (hkind : w.kindOf n ≠ .filterNode) :
    w.shape.preds n = [] ∨ ∃ p k, w.shape.preds n = [p] ∧ w.shape.Fed p k := by
  have hmem := h.mem_preds hn
  rcases hpreds : w.shape.preds n with _ | ⟨p, ps⟩
  · exact Or.inl rfl
  · have hp : M.Adj p n := (hmem p).mp (by simp [hpreds])
    obtain ⟨k, hfed⟩ := (hr n hkind p p hp hp).2
    refine Or.inr ⟨p, k, ?_, hfed⟩
    rw [← hpreds]
    apply preds_eq_singleton h hn
    intro q
    constructor
    · intro hq
      exact (hr n hkind q p hq hp).1
    · intro hq
      rw [hq]
      exact hp

theorem RuleOn.no_assertion (hr : w.RuleOn M) (h : w.Built M) {n : NodeId}
    (hn : w.heap.isLive n) {d : Nat} {message : String} :
    w.shape.evaluate d n ≠ some (.error (.fault (.assertion message))) := by
  intro herror
  have hclosed : ∀ m, w.heap.isLive m → ∀ p ∈ w.shape.deps m, w.heap.isLive p := by
    intro m hm p hp
    by_cases hkind : w.shape.kind m = .filterNode
    · simp [Shape.deps_of_plain hkind] at hp
    · rw [Shape.deps_of_not_plain hkind] at hp
      exact isLive_of_mem_preds h.sound hm hp
  obtain ⟨m, d', vs, hm, hinputs, hcombine⟩ :=
    Demand.exists_combine_error (Q := fun m => w.heap.isLive m) hclosed hn herror
  by_cases hkind : w.shape.kind m = .filterNode
  · rw [Shape.combine_plain hkind] at hcombine
    cases hcombine
  · rw [Shape.deps_of_not_plain hkind] at hinputs
    rcases hr.preds_cases h hm hkind with hpreds | ⟨p, k, hpreds, hp⟩
    · rw [hpreds] at hinputs
      cases hinputs
      cases hclass : w.shape.kind m with
      | filterNode => exact hkind hclass
      | fnOut => simp [Shape.combine, hclass] at hcombine
      | fnBooleanLiteral => simp [Shape.combine, hclass] at hcombine
    · have hlength := Demand.inputs_length hinputs
      rw [hpreds] at hlength
      obtain ⟨v, rfl⟩ := List.length_eq_one_iff.mp hlength
      obtain ⟨p', hp', hv⟩ := Demand.inputs_eq_singleton hinputs
      rw [hpreds] at hp'
      cases hp'
      cases v with
      | none => exact hp.not_plain ((Shape.evaluate_eq_none_iff hv).mp rfl)
      | some b =>
        rw [Shape.combine_single hkind] at hcombine
        cases hcombine

theorem inputRule_iff (h : w.Built M) : w.InputRule ↔ w.RuleOn M := by
  constructor
  · intro hrule n hkind p q hp hq
    obtain ⟨e, he, -, rfl⟩ := id hp
    have hn := (h.represents.nodes _).mpr (M.target_mem he)
    have hmem := h.mem_preds hn
    refine ⟨hrule.single _ hn hkind p q ((hmem p).mpr hp) ((hmem q).mpr hq), ?_⟩
    have hlive := isLive_of_mem_preds h.sound hn ((hmem p).mpr hp)
    exact (outputsBoolean_iff h hlive).mp (hrule.boolean _ hn hkind p ((hmem p).mpr hp))
  · intro hr
    refine ⟨?_, ?_, ?_⟩
    · intro n hn hkind p q hp hq
      exact (hr n hkind p q ((h.mem_preds hn p).mp hp) ((h.mem_preds hn q).mp hq)).1
    · intro n hn hkind p hp
      have hadj := (h.mem_preds hn p).mp hp
      have hlive := isLive_of_mem_preds h.sound hn hp
      exact (outputsBoolean_iff h hlive).mpr (hr n hkind p p hadj hadj).2
    · intro n hn depth w' message hcall
      have hsim := outputGet_simulates h.ready hn depth
      rw [hcall] at hsim
      generalize hs : w.shape.evaluate depth n = s at hsim
      cases hsim with
      | stop => exact hr.no_assertion h hn hs

/-! ## Steps and runs -/

theorem kindOf_congr (h : w'.filters = w.filters) : w'.kindOf = w.kindOf := by
  funext n
  rw [kindOf, kindOf, h]

theorem pred_reach_iff (h : w.Built M) {n : NodeId} (hn : w.heap.isLive n) (m : NodeId) :
    ReflTransGen w.shape.Pred m n ↔ ReflTransGen M.Adj m n := by
  constructor
  · intro hm
    have hboth : w.heap.isLive m ∧ ReflTransGen M.Adj m n := by
      induction hm using ReflTransGen.head_induction_on with
      | refl => exact ⟨hn, .refl⟩
      | head hp _ ih =>
        exact ⟨isLive_of_mem_preds h.sound ih.1 hp, .head ((h.mem_preds ih.1 _).mp hp) ih.2⟩
    exact hboth.2
  · intro hm
    induction hm using ReflTransGen.head_induction_on with
    | refl => exact .refl
    | head hp _ ih =>
      obtain ⟨e, he, rfl, rfl⟩ := id hp
      have hlive := (h.represents.nodes _).mpr (M.target_mem he)
      exact .head ((h.mem_preds hlive _).mpr hp) ih

/-- What feeds a node of `Q` still does after a step that keeps what `Q` is connected from. -/
theorem fed_carry (h : w.Built M) (h' : w'.Built M') {Q : NodeId → Prop}
    (hlive : ∀ m, Q m → m ∈ M.nodes ∧ m ∈ M'.nodes) (hclosed : ∀ p m, Q m → M.Adj p m → Q p)
    (hsame : ∀ m, Q m → w.kindOf m ≠ .filterNode → (∃ k, w'.shape.Fed m k) ∨
      w'.kindOf m = w.kindOf m ∧ ∀ p, M'.Adj p m ↔ M.Adj p m)
    {n : NodeId} (hn : Q n) {k : Nat} (hfed : w.shape.Fed n k) : ∃ k', w'.shape.Fed n k' := by
  have hin : ∀ m, Q m → w.heap.isLive m ∧ w'.heap.isLive m := fun m hm =>
    ⟨(h.represents.nodes m).mpr (hlive m hm).1, (h'.represents.nodes m).mpr (hlive m hm).2⟩
  refine hfed.carry (Q := Q) ?_ ?_ hn
  · intro m hm p hp
    exact hclosed p m hm ((h.mem_preds (hin m hm).1 p).mp hp)
  · intro m hm hkind
    rcases hsame m hm hkind with hfed' | ⟨hkind', hadj⟩
    · exact Or.inl hfed'
    · exact Or.inr ⟨hkind', preds_perm h h' (hin m hm).1 (hin m hm).2 hadj⟩

section Connecting

variable {this d : NodeId} {k : Nat}

/-- Edges into `d` do not decide what feeds a node that `d` does not lead to. -/
theorem fed_apart (h : w.Built M) (h' : w'.Built M') (hnodes : M'.nodes = M.nodes)
    (hkinds : w'.kindOf = w.kindOf) (hadj : ∀ p m, m ≠ d → (M'.Adj p m ↔ M.Adj p m))
    (hthis : this ∈ M.nodes) (hapart : ¬ ReflTransGen M.Adj d this)
    (hfed : w.shape.Fed this k) : ∃ k', w'.shape.Fed this k' := by
  refine fed_carry h h' (Q := fun m => m ∈ M.nodes ∧ ReflTransGen M.Adj m this) ?_ ?_ ?_
    ⟨hthis, .refl⟩ hfed
  · rintro m ⟨hm, -⟩
    exact ⟨hm, hnodes ▸ hm⟩
  · rintro p m ⟨-, hm⟩ hp
    obtain ⟨e, he, rfl, rfl⟩ := id hp
    exact ⟨M.source_mem he, .head hp hm⟩
  · rintro m ⟨-, hm⟩ -
    have hmd : m ≠ d := by
      intro heq
      exact hapart (heq ▸ hm)
    exact Or.inr ⟨congrFun hkinds m, fun p => hadj p m hmd⟩

variable (h : w.Built M) (h' : w'.Built M') (hnodes : M'.nodes = M.nodes)
  (hkinds : w'.kindOf = w.kindOf) (hthis : this ∈ M.nodes) (hd : d ∈ M.nodes)
  (hadj : ∀ p m, M'.Adj p m ↔ M.Adj p m ∨ p = this ∧ m = d)

include h h' hnodes hkinds hthis hd hadj

theorem connected_keeps (hr' : w'.RuleOn M') (hkind : w.kindOf d ≠ .filterNode) :
    (∀ p ∈ w.shape.preds d, p = this) ∧ (∃ k, w.shape.Fed this k) ∧
      ¬ ReflTransGen w.shape.Pred d this := by
  have hlive := (h.represents.nodes d).mpr hd
  have hlive' := (h'.represents.nodes d).mpr (hnodes ▸ hd)
  have hkind' : w'.kindOf d ≠ .filterNode := by rwa [hkinds]
  have hnew : M'.Adj this d := (hadj this d).mpr (Or.inr ⟨rfl, rfl⟩)
  have honly : ∀ q, M'.Adj q d ↔ q = this := by
    intro q
    constructor
    · intro hq
      exact (hr' d hkind' q this hq hnew).1
    · intro hq
      rw [hq]
      exact hnew
  obtain ⟨k, hfed⟩ := (hr' d hkind' this this hnew hnew).2
  -- the path that feeds `this` afterwards does not use the new edge
  have hapart' : ¬ ReflTransGen M'.Adj d this := by
    rw [← pred_reach_iff h' ((h'.represents.nodes this).mpr (hnodes ▸ hthis))]
    exact hfed.not_reach hkind' (preds_eq_singleton h' hlive' honly)
  have hold : ∀ p m, m ≠ d → (M.Adj p m ↔ M'.Adj p m) := by
    intro p m hmd
    rw [hadj]
    simp [hmd]
  refine ⟨?_, ?_, ?_⟩
  · intro p hp
    exact (honly p).mp ((hadj p d).mpr (Or.inl ((h.mem_preds hlive p).mp hp)))
  · exact fed_apart h' h hnodes.symm hkinds.symm hold (hnodes ▸ hthis) hapart' hfed
  · rw [pred_reach_iff h ((h.represents.nodes this).mpr hthis)]
    intro hreach
    exact hapart' (ReflTransGen.mono (fun p m hpm => (hadj p m).mpr (Or.inl hpm)) _ _ hreach)

theorem connected_ruleOn (hr : w.RuleOn M) (hkeeps : w.kindOf d ≠ .filterNode →
    (∀ p ∈ w.shape.preds d, p = this) ∧ (∃ k, w.shape.Fed this k) ∧
      ¬ ReflTransGen w.shape.Pred d this) : w'.RuleOn M' := by
  have hlive := (h.represents.nodes d).mpr hd
  have hlive' := (h'.represents.nodes d).mpr (hnodes ▸ hd)
  have hsame : ∀ p m, m ≠ d → (M'.Adj p m ↔ M.Adj p m) := by
    intro p m hmd
    rw [hadj]
    simp [hmd]
  -- with inputs, the destination is fed through the new edge alone
  have honly : w.kindOf d ≠ .filterNode → (∀ q, M'.Adj q d ↔ q = this) ∧
      ∃ k, w'.shape.Fed this k := by
    intro hkind
    obtain ⟨hpreds, ⟨k, hfed⟩, hapart⟩ := hkeeps hkind
    rw [pred_reach_iff h ((h.represents.nodes this).mpr hthis)] at hapart
    refine ⟨?_, fed_apart h h' hnodes hkinds hsame hthis hapart hfed⟩
    intro q
    rw [hadj]
    constructor
    · rintro (hq | ⟨hq, -⟩)
      · exact hpreds q ((h.mem_preds hlive q).mpr hq)
      · exact hq
    · intro hq
      exact Or.inr ⟨hq, rfl⟩
  have hfed : ∀ p ∈ M.nodes, (∃ k, w.shape.Fed p k) → ∃ k, w'.shape.Fed p k := by
    rintro p hp ⟨k, hk⟩
    refine fed_carry h h' (Q := fun m => m ∈ M.nodes) ?_ ?_ ?_ hp hk
    · intro m hm
      exact ⟨hm, hnodes ▸ hm⟩
    · rintro q m - ⟨e, he, rfl, -⟩
      exact M.source_mem he
    · intro m _ hkind
      by_cases hmd : m = d
      · subst m
        obtain ⟨hto, k', hk'⟩ := honly hkind
        refine Or.inl ⟨k' + 1, .pass ?_ (preds_eq_singleton h' hlive' hto) hk'⟩
        exact fun heq => hkind ((congrFun hkinds d).symm.trans heq)
      · exact Or.inr ⟨congrFun hkinds m, fun q => hsame q m hmd⟩
  intro n hkind p q hp hq
  rw [hkinds] at hkind
  by_cases hnd : n = d
  · subst n
    obtain ⟨hto, hfed'⟩ := honly hkind
    rw [(hto p).mp hp, (hto q).mp hq]
    exact ⟨rfl, hfed'⟩
  · rw [hsame p n hnd] at hp
    rw [hsame q n hnd] at hq
    obtain ⟨heq, hk⟩ := hr n hkind p q hp hq
    obtain ⟨e, he, rfl, -⟩ := hp
    exact ⟨heq, hfed _ (M.source_mem he) hk⟩

end Connecting

theorem build_ruleOn_iff (h : w.Built M) (hr : w.RuleOn M) {op : BuildOp} (h' : w'.Built M')
    (hstep : BuildStep w M op w' M') : w'.RuleOn M' ↔ w.KeepsInputRule op := by
  cases hstep with
  | @connected this d e _ hthis hd hc hnew hf =>
    have hadj : ∀ p m, (M.addEdge e hthis hd).Adj p m ↔ M.Adj p m ∨ p = this ∧ m = d :=
      fun p m => M.adj_addEdge hthis hd hnew
    constructor
    · intro hr' _ hkind
      exact connected_keeps h h' rfl (kindOf_congr hf) hthis hd hadj hr' hkind
    · intro hkeeps
      exact connected_ruleOn h h' rfl (kindOf_congr hf) hthis hd hadj hr (hkeeps hc)
  | @created n Data _ hn hf =>
    have hkind : ∀ m, m ≠ n → w'.kindOf m = w.kindOf m := by
      intro m hm
      rw [kindOf, kindOf, hf, if_neg hm]
    have hapart : ∀ m ∈ M.nodes, m ≠ n := fun m hm heq => hn (heq ▸ hm)
    have hr' : w'.RuleOn (M.addNode n) := by
      intro m hm p q hp hq
      obtain ⟨e, he, rfl, rfl⟩ : M.Adj p m := hp
      rw [hkind _ (hapart _ (M.target_mem he))] at hm
      obtain ⟨heq, k, hfed⟩ := hr _ hm _ q ⟨e, he, rfl, rfl⟩ hq
      refine ⟨heq, fed_carry h h' (Q := fun m => m ∈ M.nodes) ?_ ?_ ?_ (M.source_mem he) hfed⟩
      · intro m hm
        exact ⟨hm, Set.mem_insert_of_mem n hm⟩
      · rintro p m - ⟨e, he, rfl, -⟩
        exact M.source_mem he
      · intro m hm _
        exact Or.inr ⟨hkind m (hapart m hm), fun p => Iff.rfl⟩
    simp only [KeepsInputRule, hr']
  | @kept op _ hc hf =>
    have hkeeps : w.KeepsInputRule op := by
      unfold KeepsInputRule
      split
      · intro hconnects
        exact absurd hconnects (hc _ _ _ rfl)
      · trivial
    have hr' : w'.RuleOn M := by
      intro n hkind p q hp hq
      rw [kindOf_congr hf] at hkind
      obtain ⟨heq, k, hfed⟩ := hr n hkind p q hp hq
      obtain ⟨e, he, rfl, -⟩ := hp
      refine ⟨heq, fed_carry h h' (Q := fun m => m ∈ M.nodes) ?_ ?_ ?_ (M.source_mem he) hfed⟩
      · intro m hm
        exact ⟨hm, hm⟩
      · rintro p m - ⟨e, he, rfl, -⟩
        exact M.source_mem he
      · intro m _ _
        exact Or.inr ⟨congrFun (kindOf_congr hf) m, fun p => Iff.rfl⟩
    simp only [hkeeps, hr']

theorem build_inputRule_iff (w : World) (op : BuildOp) (h : ∃ M, w.Built M) :
    ∃ w', w.build op = .ok w' ∧ (∃ M, w'.Built M) ∧
      (w.InputRule → (w'.InputRule ↔ w.KeepsInputRule op)) := by
  obtain ⟨M, h⟩ := h
  obtain ⟨w', M', hw', hbuilt, hstep⟩ := build_spec h op
  refine ⟨w', hw', ⟨M', hbuilt⟩, ?_⟩
  intro hrule
  rw [inputRule_iff hbuilt]
  exact build_ruleOn_iff h ((inputRule_iff h).mp hrule) hbuilt hstep

theorem empty_inputRule : World.empty.InputRule := by
  rw [inputRule_iff empty_built]
  rintro n - p q ⟨e, he, -⟩
  exact he.elim

/-- Along every construction the rule holds in each state, and with it no assertion of an
evaluation fails, exactly when every `ConnectTo` meets its condition. -/
theorem run_inputRule_iff (ops : List BuildOp) :
    (∃ w, Runs.run World.build World.empty ops = .ok w) ∧
      (Runs.Along World.build InputRule World.empty ops ↔
        Runs.EveryStep World.build KeepsInputRule World.empty ops) := by
  obtain ⟨w, hw, -⟩ := run_built ops
  exact ⟨⟨w, hw⟩, Runs.along_iff_everyStep World.build build_inputRule_iff
    ⟨_, empty_built⟩ empty_inputRule ops⟩

/-- A plain node connected to `OUT`, as the widget's constructor connects two. -/
def plainInput : List BuildOp :=
  [.makeGraph 0, .makeFilter 0 fnOut, .makeFilter 1 (filterNode ⟨1 / 10, 1 / 2⟩ "No name"),
    .nodeAdd 0 0, .nodeAdd 0 1, .connectTo 1 (.obj 0) 0]

theorem plain_input_breaks_rule :
    ∃ w, Runs.run World.build World.empty plainInput = .ok w ∧ ¬ w.InputRule ∧
      ∃ w', w.outputGet 2 (.data 0) = .error (w', .fault (.assertion
        "The only 'OUT' node parameter should be a boolean parameter.")) := by
  refine ⟨_, rfl, ?_, _, rfl⟩
  intro hrule
  exact hrule.noAssertion 0 rfl 2 _ _ rfl

end World

end Unotu.Filter
