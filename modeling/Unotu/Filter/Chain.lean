import Unotu.Filter.Inputs
import Unotu.Filter.Ownership
import Unotu.Filter.Slicing

/-!
# Chains of literals

Backwards from a node the graph may be made of literals with at most one predecessor each
and without a cycle. Every predecessor then ends a chain, and its evaluation walks down the
chain and renews the cached outputs on the way back up.
-/

set_option autoImplicit false

namespace Unotu.Filter

open Unotu.Graph Relation

namespace Shape

variable {S : Shape}

/-- Each node that is reached backwards from `n` is a literal with at most one distinct
predecessor, and on no cycle. -/
def FedByLiterals (S : Shape) (n : NodeId) : Prop :=
  ∀ m, TransGen S.Pred m n → S.kind m = .fnBooleanLiteral ∧
    (∀ p q, S.Pred p m → S.Pred q m → p = q) ∧ ¬ TransGen S.Pred m m

/-- A literal without input is true and one with an input passes it on. -/
inductive ReferenceValue (S : Shape) : NodeId → Bool → Prop where
  | start {p : NodeId} (hkind : S.kind p = .fnBooleanLiteral) (hpreds : S.preds p = []) :
      ReferenceValue S p true
  | pass {p q : NodeId} {b : Bool} (hkind : S.kind p = .fnBooleanLiteral)
      (hpreds : S.preds p = [q]) (hq : ReferenceValue S q b) : ReferenceValue S p b

/-- The nodes of the chain that ends in `p`, from `p` backwards. -/
inductive Chain (S : Shape) : NodeId → List NodeId → Prop where
  | start {p : NodeId} (hkind : S.kind p = .fnBooleanLiteral) (hpreds : S.preds p = []) :
      Chain S p [p]
  | pass {p q : NodeId} {c : List NodeId} (hkind : S.kind p = .fnBooleanLiteral)
      (hpreds : S.preds p = [q]) (hq : Chain S q c) : Chain S p (p :: c)

theorem Chain.referenceValue {p : NodeId} {c : List NodeId} (h : Chain S p c) :
    S.ReferenceValue p true := by
  induction h with
  | start hkind hpreds => exact .start hkind hpreds
  | pass hkind hpreds _ ih => exact .pass hkind hpreds ih

theorem Chain.literal {p : NodeId} {c : List NodeId} (h : Chain S p c) :
    ∀ m ∈ c, S.kind m = .fnBooleanLiteral := by
  induction h with
  | start hkind =>
    intro m hm
    rw [List.mem_singleton.mp hm]
    exact hkind
  | pass hkind _ _ ih =>
    intro m hm
    rcases List.mem_cons.mp hm with heq | hm
    · rw [heq]
      exact hkind
    · exact ih m hm

theorem Chain.mem_iff {p : NodeId} {c : List NodeId} (h : Chain S p c) (m : NodeId) :
    m ∈ c ↔ ReflTransGen S.Pred m p := by
  induction h with
  | @start p _ hpreds =>
    rw [List.mem_singleton]
    constructor
    · intro heq
      rw [heq]
    · intro hm
      rcases hm.cases_tail with heq | ⟨q, -, hq⟩
      · exact heq.symm
      · rw [Pred, hpreds] at hq
        cases hq
  | @pass p q c _ hpreds _ ih =>
    rw [List.mem_cons, ih]
    constructor
    · intro hmem
      rcases hmem with heq | hm
      · rw [heq]
      · refine hm.tail ?_
        rw [Pred, hpreds]
        exact List.mem_singleton_self q
    · intro hm
      rcases hm.cases_tail with heq | ⟨r, hm, hr⟩
      · exact Or.inl heq.symm
      · rw [Pred, hpreds, List.mem_singleton] at hr
        rw [hr] at hm
        exact Or.inr hm

theorem Chain.unique {p : NodeId} {c c' : List NodeId} (h : Chain S p c) (h' : Chain S p c') :
    c = c' := by
  induction h generalizing c' with
  | start _ hpreds =>
    cases h' with
    | start => rfl
    | pass _ hpreds' =>
      rw [hpreds] at hpreds'
      cases hpreds'
  | pass _ hpreds _ ih =>
    cases h' with
    | start _ hpreds' =>
      rw [hpreds] at hpreds'
      cases hpreds'
    | pass _ hpreds' hq' =>
      rw [hpreds] at hpreds'
      cases hpreds'
      rw [ih hq']

theorem Chain.exists_suffix {p m : NodeId} {c : List NodeId} (h : Chain S p c) (hm : m ∈ c) :
    ∃ c', Chain S m c' ∧ c'.length ≤ c.length := by
  induction h with
  | start hkind hpreds =>
    rw [List.mem_singleton.mp hm]
    exact ⟨_, .start hkind hpreds, Nat.le_refl _⟩
  | pass hkind hpreds hq ih =>
    rcases List.mem_cons.mp hm with heq | hm
    · rw [heq]
      exact ⟨_, .pass hkind hpreds hq, Nat.le_refl _⟩
    · obtain ⟨c', hc', hlength⟩ := ih hm
      exact ⟨c', hc', Nat.le_succ_of_le hlength⟩

/-- The chain does not come back to its end. -/
theorem Chain.notMem_tail {p : NodeId} {c : List NodeId} (h : Chain S p (p :: c)) : p ∉ c := by
  intro hm
  have hshort : ∃ c', Chain S p c' ∧ c'.length ≤ c.length := by
    cases h with
    | start => cases hm
    | pass _ _ hq => exact hq.exists_suffix hm
  obtain ⟨c', hc', hlength⟩ := hshort
  rw [← h.unique hc', List.length_cons] at hlength
  omega

theorem Chain.single {p q r : NodeId} {c : List NodeId} (h : Chain S p c) (hq : S.Pred q p)
    (hr : S.Pred r p) : q = r := by
  cases h with
  | start _ hpreds =>
    rw [Pred, hpreds] at hq
    cases hq
  | pass _ hpreds =>
    rw [Pred, hpreds, List.mem_singleton] at hq hr
    rw [hq, hr]

theorem Chain.acyclic {p : NodeId} {c : List NodeId} (h : Chain S p c) : ¬ TransGen S.Pred p p := by
  intro hcycle
  obtain ⟨q, hpq, hq⟩ := TransGen.tail'_iff.mp hcycle
  cases h with
  | start _ hpreds =>
    rw [Pred, hpreds] at hq
    cases hq
  | pass hkind hpreds hc =>
    rw [Pred, hpreds, List.mem_singleton] at hq
    rw [hq] at hpq
    exact (Chain.pass hkind hpreds hc).notMem_tail ((hc.mem_iff p).mpr hpq)

theorem fedByLiterals_of_chains {n : NodeId} (h : ∀ p ∈ S.preds n, ∃ c, Chain S p c) :
    S.FedByLiterals n := by
  intro m hm
  obtain ⟨p, hmp, hp⟩ := TransGen.tail'_iff.mp hm
  obtain ⟨c, hc⟩ := h p hp
  have hmc := (hc.mem_iff m).mpr hmp
  obtain ⟨c', hc', -⟩ := hc.exists_suffix hmc
  exact ⟨hc.literal m hmc, fun _ _ => hc'.single, hc'.acyclic⟩

/-- Backwards from a predecessor the graph is a chain. -/
theorem FedByLiterals.exists_chain {n : NodeId} (h : S.FedByLiterals n)
    (hnodup : ∀ m, TransGen S.Pred m n → (S.preds m).Nodup)
    (hfinite : {m | TransGen S.Pred m n}.Finite) {p : NodeId} (hp : S.Pred p n) :
    ∃ c, Chain S p c := by
  have hbelow : ∀ m, ReflTransGen S.Pred m p → TransGen S.Pred m n :=
    fun m hm => TransGen.tail' hm hp
  have hacc : Acc S.Pred p :=
    (Demand.acc_iff_no_cycle (hfinite.subset hbelow)).mpr fun m hm => (h m (hbelow m hm)).2.2
  have hpn : TransGen S.Pred p n := .single hp
  clear hp hbelow
  induction hacc with
  | intro p _ ih =>
    obtain ⟨hkind, hsingle, -⟩ := h p hpn
    rcases hpreds : S.preds p with _ | ⟨q, _ | ⟨r, ps⟩⟩
    · exact ⟨_, .start hkind hpreds⟩
    · have hq : S.Pred q p := by simp [Pred, hpreds]
      obtain ⟨c, hc⟩ := ih q hq (.head hq hpn)
      exact ⟨_, .pass hkind hpreds hc⟩
    · -- two entries of a set are two distinct predecessors
      have hqr := hsingle q r (by simp [Pred, hpreds]) (by simp [Pred, hpreds])
      have hset := hnodup p hpn
      rw [hpreds, hqr] at hset
      simp at hset

end Shape

namespace World

variable {w w' : World}

/-! ## The frame of one assignment -/

theorem deleteParameter_frame {P : Option ParamId} (h : w.deleteParameter P = .ok w') :
    w'.filters = w.filters ∧ w'.nextParam = w.nextParam ∧
      ∀ q, P ≠ some q → w'.store q = w.store q := by
  unfold deleteParameter at h
  split at h
  · cases h
    exact ⟨rfl, rfl, fun _ _ => rfl⟩
  · rename_i p
    split at h
    · cases h
    · cases h
      refine ⟨rfl, rfl, ?_⟩
      intro q hq
      have hne : q ≠ p := fun heq => hq (by rw [heq])
      exact Function.update_of_ne hne ..

theorem cachedOutputSet_frame {f : FilterId} {node : FilterNode} (hf : w.filters f = some node)
    {c c' : Option ParamId} (h : w.cachedOutputSet f c = .ok (w', c')) :
    (∀ g, w'.filters g = if g = f then some { node with cachedOutput := c } else w.filters g) ∧
      w'.nextParam = w.nextParam ∧ ∀ q, node.cachedOutput ≠ some q → w'.store q = w.store q := by
  simp only [cachedOutputSet, hf] at h
  cases hdelete : w.deleteParameter node.cachedOutput with
  | error e =>
    rw [hdelete] at h
    cases h
  | ok v =>
    rw [hdelete] at h
    cases h
    obtain ⟨hfilters, hnext, hstore⟩ := deleteParameter_frame hdelete
    refine ⟨?_, hnext, hstore⟩
    intro g
    rw [setFilter_filters, hfilters]

/-- What is outside of the chain stays as it is, and with it the parameters cached there. -/
def Untouched (w w' : World) (f : FilterId) : Prop :=
  w'.filters f = w.filters f ∧ ∀ q, w.cachedOutputOf f = some q → w'.store q = w.store q

theorem Untouched.trans {w'' : World} {f : FilterId} (h : w.Untouched w' f)
    (h' : w'.Untouched w'' f) : w.Untouched w'' f := by
  refine ⟨h'.1.trans h.1, ?_⟩
  intro q hq
  have hq' : w'.cachedOutputOf f = some q := by
    rw [cachedOutputOf, h.1]
    exact hq
  rw [h'.2 q hq', h.2 q hq]

theorem Untouched.cachedOutputOf {f : FilterId} (h : w.Untouched w' f) :
    w'.cachedOutputOf f = w.cachedOutputOf f := by
  rw [World.cachedOutputOf, World.cachedOutputOf, h.1]

theorem Owned.lt_nextParam (h : w.Owned) {q : ParamId} {P : Parameter} (hq : w.store q = some P) :
    q < w.nextParam := by
  rcases Nat.lt_or_ge q w.nextParam with hlt | hge
  · exact hlt
  · rw [h.fresh q hge] at hq
    cases hq

theorem Owned.cached_lt (h : w.Owned) {f : FilterId} {q : ParamId}
    (hq : w.cachedOutputOf f = some q) : q < w.nextParam := by
  obtain ⟨node, hf, hcached⟩ := Option.bind_eq_some_iff.mp hq
  obtain ⟨P, hP⟩ := h.stored f node q hf hcached
  exact h.lt_nextParam hP

/-- `CachedOutputSet( new fnp_boolean( b ) )` on one node. -/
theorem cacheBoolean_spec (h : w.Owned) {f : FilterId} {node : FilterNode}
    (hf : w.filters f = some node) (b : Bool) :
    ∃ w', w.cacheBoolean f b = .ok (w', some w.nextParam) ∧ w'.Owned ∧ Keeps w w' ∧
      w'.nextParam = w.nextParam + 1 ∧ w'.cachedOutputOf f = some w.nextParam ∧
      w'.store w.nextParam = some (.boolean b) ∧ ∀ g, g ≠ f → w.Untouched w' g := by
  obtain ⟨w', hset, howned, hkeeps, hstore⟩ := cacheNew_spec h hf (.boolean b)
  have hf' : (w.newParameter (.boolean b)).1.filters f = some node := hf
  obtain ⟨hfilters, hnext, hframe⟩ := cachedOutputSet_frame hf' hset
  refine ⟨w', hset, howned, hkeeps, hnext, ?_, hstore, ?_⟩
  · rw [cachedOutputOf, hfilters, if_pos rfl]
    rfl
  · intro g hg
    have hsame : w'.filters g = w.filters g := by
      rw [hfilters, if_neg hg]
      rfl
    refine ⟨hsame, ?_⟩
    intro q hq
    obtain ⟨node', hg', hcached⟩ := Option.bind_eq_some_iff.mp hq
    have hother : node.cachedOutput ≠ some q := fun hnode =>
      hg (h.sole g f node' node q hg' hf hcached hnode)
    have hold : q ≠ w.nextParam := Nat.ne_of_lt (h.cached_lt hq)
    rw [hframe q hother]
    exact Function.update_of_ne hold ..

/-! ## Evaluating chains -/

/-- The evaluation of the nodes `c` has given each of them a new cached output, and has left
all others alone. -/
structure Refreshed (w w' : World) (c : List NodeId) : Prop where
  keeps : Keeps w w'
  owned : w'.Owned
  later : w.nextParam ≤ w'.nextParam
  renewed : ∀ m ∈ c, ∃ q, w'.cachedOutputOf (.data m) = some q ∧ w.nextParam ≤ q ∧
    w'.store q = some (.boolean true)
  others : ∀ f, (∀ m ∈ c, f ≠ .data m) → w.Untouched w' f

theorem Refreshed.refl (h : w.Owned) : Refreshed w w [] where
  keeps := .refl w
  owned := h
  later := Nat.le_refl _
  renewed m hm := by cases hm
  others f _ := ⟨rfl, fun _ _ => rfl⟩

theorem Refreshed.trans {w'' : World} {c c' : List NodeId} (h : Refreshed w w' c)
    (h' : Refreshed w' w'' c') : Refreshed w w'' (c ++ c') where
  keeps := h.keeps.trans h'.keeps
  owned := h'.owned
  later := h.later.trans h'.later
  renewed m hm := by
    by_cases hm' : m ∈ c'
    · obtain ⟨q, hq, hle, hstore⟩ := h'.renewed m hm'
      exact ⟨q, hq, h.later.trans hle, hstore⟩
    · have hmc : m ∈ c := (List.mem_append.mp hm).resolve_right hm'
      obtain ⟨q, hq, hle, hstore⟩ := h.renewed m hmc
      have hsame := h'.others (.data m) fun m' hm'' heq => hm' (FilterId.data.inj heq ▸ hm'')
      exact ⟨q, hsame.cachedOutputOf.trans hq, hle, (hsame.2 q hq).trans hstore⟩
  others f hf := by
    have hc := h.others f fun m hm => hf m (List.mem_append_left c' hm)
    have hc' := h'.others f fun m hm => hf m (List.mem_append_right c hm)
    exact hc.trans hc'

/-- A literal that caches `true` extends the chain of the nodes evaluated before it. -/
theorem Refreshed.cacheBoolean {c : List NodeId} (h : Refreshed w w' c) {p : NodeId}
    {node : FilterNode} (hp : w'.filters (.data p) = some node) :
    ∃ w'', w'.cacheBoolean (.data p) true = .ok (w'', some w'.nextParam) ∧
      Refreshed w w'' (p :: c) ∧ w''.cachedOutputOf (.data p) = some w'.nextParam ∧
      ∀ g, g ≠ .data p → w'.Untouched w'' g := by
  obtain ⟨w'', hcall, howned, hkeeps, hnext, hcached, hstore, hothers⟩ :=
    cacheBoolean_spec h.owned hp true
  refine ⟨w'', hcall, ⟨h.keeps.trans hkeeps, howned, ?_, ?_, ?_⟩, hcached, hothers⟩
  · rw [hnext]
    exact Nat.le_succ_of_le h.later
  · intro m hm
    by_cases hmp : m = p
    · rw [hmp]
      exact ⟨_, hcached, h.later, hstore⟩
    · obtain ⟨q, hq, hle, hq'⟩ := h.renewed m ((List.mem_cons.mp hm).resolve_left hmp)
      have hsame := hothers (.data m) (by simpa using hmp)
      exact ⟨q, hsame.cachedOutputOf.trans hq, hle, (hsame.2 q hq).trans hq'⟩
  · intro f hf
    have hc := h.others f fun m hm => hf m (List.mem_cons_of_mem p hm)
    exact hc.trans (hothers f (hf p List.mem_cons_self))

theorem Refreshed.castBoolean {c : List NodeId} (h : Refreshed w w' c) {p : NodeId} (hp : p ∈ c)
    {q : ParamId} (hq : w'.cachedOutputOf (.data p) = some q) :
    w'.castBoolean (some q) = .ok (some true) := by
  obtain ⟨q', hq', -, hstore⟩ := h.renewed p hp
  rw [hq] at hq'
  cases hq'
  simp only [World.castBoolean, hstore]

theorem outputGet_literal (h : w.Ready) {p : NodeId} (hp : w.heap.isLive p)
    (hkind : w.shape.kind p = .fnBooleanLiteral) (depth : Nat) :
    w.outputGet (depth + 1) (.data p) =
      collectOutputs (outputGet depth) w ((w.shape.preds p).map .obj) >>= fun r =>
        r.1.literalResult (.data p) r.2 := by
  obtain ⟨node, hnode, hparent⟩ := h.wired p hp
  have hclass : node.kind = .fnBooleanLiteral := by
    simpa [shape, kindOf, hnode] using hkind
  simp only [outputGet, hnode, hclass, inputParametersGet_eq h.sound hp hparent]

/-- A literal with one input passes the value on that the chain below has returned. -/
theorem outputGet_pass (h : w.Ready) {p q : NodeId} (hp : w.heap.isLive p)
    (hkind : w.shape.kind p = .fnBooleanLiteral) (hpreds : w.shape.preds p = [q])
    {c : List NodeId} (hc : w.shape.Chain q c) {d : Nat} {w₁ : World} {r : ParamId}
    (hcall : w.outputGet d (.data q) = .ok (w₁, some r)) (hrefreshed : Refreshed w w₁ c)
    (hr : w₁.cachedOutputOf (.data q) = some r) :
    ∃ w', w.outputGet (d + 1) (.data p) = .ok (w', some w₁.nextParam) ∧ Refreshed w w' (p :: c) ∧
      w'.cachedOutputOf (.data p) = some w₁.nextParam ∧ ∀ g, g ≠ .data p → w₁.Untouched w' g := by
  obtain ⟨node, hnode, -⟩ := h.wired p hp
  obtain ⟨k, hnode₁⟩ := hrefreshed.keeps.exists_filter hnode
  obtain ⟨w', hcache, hrest⟩ := hrefreshed.cacheBoolean hnode₁
  refine ⟨w', ?_, hrest⟩
  have hcast := hrefreshed.castBoolean ((hc.mem_iff q).mpr .refl) hr
  rw [outputGet_literal h hp hkind, hpreds]
  simp only [List.map_cons, List.map_nil, collectOutputs, hcall, bind, Except.bind,
    literalResult, hcast]
  exact hcache

/-- With enough stack the evaluation of a chain renews it and returns what its end caches. -/
theorem outputGet_chain (h : w.Ready) {p : NodeId} {c : List NodeId} (hc : w.shape.Chain p c)
    (hp : w.heap.isLive p) {depth : Nat} (hdepth : c.length ≤ depth) :
    ∃ w' q, w.outputGet depth (.data p) = .ok (w', some q) ∧ Refreshed w w' c ∧
      w'.cachedOutputOf (.data p) = some q := by
  induction hc generalizing depth with
  | @start p hkind hpreds =>
    obtain ⟨d, rfl⟩ := Nat.exists_eq_succ_of_ne_zero (Nat.ne_of_gt hdepth)
    obtain ⟨node, hnode, -⟩ := h.wired p hp
    obtain ⟨w', hcall, hrefreshed, hcached, -⟩ := (Refreshed.refl h.owned).cacheBoolean hnode
    refine ⟨w', w.nextParam, ?_, hrefreshed, hcached⟩
    rw [outputGet_literal h hp hkind, hpreds]
    exact hcall
  | @pass p q c hkind hpreds hc ih =>
    obtain ⟨d, rfl⟩ := Nat.exists_eq_succ_of_ne_zero (Nat.ne_of_gt (Nat.zero_lt_of_lt hdepth))
    have hq : w.heap.isLive q := isLive_of_mem_preds h.sound hp (by simp [hpreds])
    obtain ⟨w₁, r, hcall, hrefreshed, hr⟩ := ih hq (Nat.le_of_succ_le_succ hdepth)
    obtain ⟨w', hcall', hrefreshed', hcached, -⟩ :=
      outputGet_pass h hp hkind hpreds hc hcall hrefreshed hr
    exact ⟨w', w₁.nextParam, hcall', hrefreshed', hcached⟩

/-- With less stack it runs out of it. -/
theorem outputGet_chain_deep (h : w.Ready) {p : NodeId} {c : List NodeId}
    (hc : w.shape.Chain p c) (hp : w.heap.isLive p) {depth : Nat} (hdepth : depth < c.length) :
    ∃ w', w.outputGet depth (.data p) = .error (w', .stackOverflow) := by
  induction hc generalizing depth with
  | start =>
    obtain rfl : depth = 0 := Nat.lt_one_iff.mp hdepth
    exact ⟨w, rfl⟩
  | @pass p q c hkind hpreds _ ih =>
    cases depth with
    | zero => exact ⟨w, rfl⟩
    | succ d =>
      have hq : w.heap.isLive q := isLive_of_mem_preds h.sound hp (by simp [hpreds])
      obtain ⟨w', hcall⟩ := ih hq (Nat.lt_of_succ_lt_succ hdepth)
      refine ⟨w', ?_⟩
      rw [outputGet_literal h hp hkind, hpreds]
      simp only [List.map_cons, List.map_nil, collectOutputs, hcall, bind, Except.bind]

theorem outputGet_chain_ok (h : w.Ready) {p : NodeId} {c : List NodeId} (hc : w.shape.Chain p c)
    (hp : w.heap.isLive p) {depth : Nat} {P : Option ParamId}
    (hcall : w.outputGet depth (.data p) = .ok (w', P)) :
    Refreshed w w' c ∧ ∃ q, P = some q ∧ w'.cachedOutputOf (.data p) = some q := by
  rcases Nat.lt_or_ge depth c.length with hlt | hge
  · obtain ⟨v, hdeep⟩ := outputGet_chain_deep h hc hp hlt
    rw [hcall] at hdeep
    cases hdeep
  · obtain ⟨v, q, hok, hrefreshed, hcached⟩ := outputGet_chain h hc hp hge
    rw [hcall] at hok
    cases hok
    exact ⟨hrefreshed, q, rfl, hcached⟩

/-- Several chains are evaluated one after the other. -/
theorem collectOutputs_chains (h : w.Ready) {chain : NodeId → List NodeId} {ps : List NodeId}
    (hc : ∀ p ∈ ps, w.shape.Chain p (chain p)) (hlive : ∀ p ∈ ps, w.heap.isLive p) {depth : Nat}
    (hdepth : ∀ p ∈ ps, (chain p).length ≤ depth) :
    ∃ w' Output, collectOutputs (outputGet depth) w (ps.map .obj) = .ok (w', Output) ∧
      Refreshed w w' (ps.flatMap chain) ∧ Output.length = ps.length := by
  induction ps generalizing w with
  | nil => exact ⟨w, [], rfl, Refreshed.refl h.owned, rfl⟩
  | cons p ps ih =>
    obtain ⟨w₁, q, hcall, hrefreshed, -⟩ := outputGet_chain h (hc p List.mem_cons_self)
      (hlive p List.mem_cons_self) (hdepth p List.mem_cons_self)
    have hrest : ∃ w' Output, collectOutputs (outputGet depth) w₁ (ps.map .obj) = .ok (w', Output) ∧
        Refreshed w₁ w' (ps.flatMap chain) ∧ Output.length = ps.length := by
      apply ih (h.keeps hrefreshed.keeps hrefreshed.owned)
      · intro m hm
        rw [hrefreshed.keeps.shape]
        exact hc m (List.mem_cons_of_mem p hm)
      · intro m hm
        rw [hrefreshed.keeps.heap]
        exact hlive m (List.mem_cons_of_mem p hm)
      · intro m hm
        exact hdepth m (List.mem_cons_of_mem p hm)
    obtain ⟨w', Output, hcalls, hrefreshed', hlength⟩ := hrest
    refine ⟨w', some q :: Output, ?_, hrefreshed.trans hrefreshed', by simp [hlength]⟩
    simp only [List.map_cons, collectOutputs, hcall, hcalls, bind, Except.bind]

/-! ## The chains of a run -/

theorem isLive_of_transGen (h : w.Ready) {m n : NodeId} (hn : w.heap.isLive n)
    (hm : TransGen w.shape.Pred m n) : w.heap.isLive m := by
  induction hm using TransGen.head_induction_on with
  | single hp => exact isLive_of_mem_preds h.sound hn hp
  | head hp _ ih => exact isLive_of_mem_preds h.sound ih hp

theorem Laid.preds_nodup {d : NodeData} (h : w.Laid d) {n : NodeId} (hn : w.heap.isLive n) :
    (w.shape.preds n).Nodup := by
  obtain ⟨M, hbuilt⟩ := h.built
  have hset : (w.withoutCopies.shape.preds n).Nodup := World.preds_nodup hbuilt hn
  exact hset

theorem length_le_flatten (chain : NodeId → List NodeId) {ps : List NodeId} {p : NodeId}
    (hp : p ∈ ps) : (chain p).length ≤ (ps.map chain).flatten.length :=
  (List.sublist_flatten_of_mem (List.mem_map_of_mem hp)).length_le

theorem Laid.exists_chains {d : NodeData} (h : w.Laid d) {n : NodeId} (hn : w.heap.isLive n)
    (hfed : w.shape.FedByLiterals n) :
    ∃ chain : NodeId → List NodeId, ∀ p ∈ w.shape.preds n, w.shape.Chain p (chain p) := by
  obtain ⟨M, hbuilt⟩ := h.built
  have hlive := fun m hm => isLive_of_transGen h.ready (m := m) hn hm
  have hfinite : {m | TransGen w.shape.Pred m n}.Finite := by
    apply hbuilt.finite.subset
    intro m hm
    exact (hbuilt.represents.nodes m).mp (hlive m hm)
  have hnodup : ∀ m, TransGen w.shape.Pred m n → (w.shape.preds m).Nodup := fun m hm =>
    h.preds_nodup (hlive m hm)
  have hchain : ∀ p, ∃ c, p ∈ w.shape.preds n → w.shape.Chain p c := by
    intro p
    by_cases hp : p ∈ w.shape.preds n
    · obtain ⟨c, hc⟩ := hfed.exists_chain hnodup hfinite hp
      exact ⟨c, fun _ => hc⟩
    · exact ⟨[], fun hp' => absurd hp' hp⟩
  choose chain hall using hchain
  exact ⟨chain, hall⟩

end World

end Unotu.Filter
