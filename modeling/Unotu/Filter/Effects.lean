import Unotu.Filter.Chain

/-!
# What an evaluation writes

However an evaluation ends, all it has done is a sequence of `CachedOutputSet` calls, each with
a new boolean and on a node upstream of the one that was asked. What it leaves alone, and
that it neither leaks nor takes a parameter, is read off from that sequence.
-/

set_option autoImplicit false

namespace Unotu.Filter

open Unotu.Graph Relation

namespace World

variable {w w' w'' : World}

/-- New booleans were cached on nodes of `U`, one after the other. -/
inductive Caches (U : Set NodeId) (w : World) : World → Prop where
  | refl : Caches U w w
  | tail {w' w'' : World} {n : NodeId} {b : Bool} {P : Option ParamId} (before : Caches U w w')
      (hn : n ∈ U) (hcall : w'.cacheBoolean (.data n) b = .ok (w'', P)) : Caches U w w''

theorem Caches.trans {U : Set NodeId} (h : Caches U w w') (h' : Caches U w' w'') :
    Caches U w w'' := by
  induction h' with
  | refl => exact h
  | tail _ hn hcall ih => exact .tail ih hn hcall

/-- The world that a call ends in, with a result or without. -/
def endOf {α : Type} : Except Stopped (World × α) → World
  | .ok (w, _) => w
  | .error (w, _) => w

theorem Caches.bind {α β : Type} {U : Set NodeId} {r : Except Stopped (World × α)}
    (h : Caches U w (endOf r)) {f : World × α → Except Stopped (World × β)}
    (hf : ∀ w' a, r = .ok (w', a) → Caches U w' (endOf (f (w', a)))) :
    Caches U w (endOf (r >>= f)) := by
  cases r with
  | error stopped => exact h
  | ok result =>
    obtain ⟨w', a⟩ := result
    exact h.trans (hf w' a rfl)

/-! ## Evaluations -/

/-- The nodes whose outputs the evaluation of `n` may ask for. -/
def upstream (w : World) (n : NodeId) : Set NodeId := {m | ReflTransGen w.shape.Pred m n}

theorem isLive_of_upstream (h : w.Ready) {n m : NodeId} (hn : w.heap.isLive n)
    (hm : m ∈ w.upstream n) : w.heap.isLive m := by
  rcases hm.cases_head with heq | ⟨p, hp, hpn⟩
  · rw [heq]
    exact hn
  · exact isLive_of_transGen h hn (.head' hp hpn)

section Evaluation

variable {U : Set NodeId} {w₀ : World}

theorem caches_cacheBoolean (h : w.Ready) {n : NodeId} (hn : n ∈ U) (hlive : w.heap.isLive n)
    (b : Bool) : Caches U w (endOf (w.cacheBoolean (.data n) b)) := by
  obtain ⟨node, hnode, -⟩ := h.wired n hlive
  obtain ⟨w', hcall, -⟩ := cacheBoolean_spec h.owned hnode b
  rw [hcall]
  exact .tail .refl hn hcall

/-- The end of both classes' `OutputGet`: the value of the only input is cached. -/
theorem caches_castBoolean (h : w.Ready) {n : NodeId} (hn : n ∈ U) (hlive : w.heap.isLive n)
    (P : Option ParamId) (e : Stop) :
    Caches U w (endOf (w.castBoolean P >>= fun cast =>
      match cast with
      | none => .error (w, e)
      | some Boolean => w.cacheBoolean (.data n) Boolean)) := by
  cases P with
  | none => exact .refl
  | some p =>
    cases hp : w.store p with
    | none =>
      simp only [castBoolean, hp]
      exact .refl
    | some Parameter =>
      cases Parameter with
      | boolean Boolean =>
        simp only [castBoolean, hp]
        exact caches_cacheBoolean h hn hlive Boolean
      | stringlist | stringlistAny | stringlistEvery | string =>
        simp only [castBoolean, hp]
        exact .refl

theorem caches_outResult (h : w.Ready) {n : NodeId} (hn : n ∈ U) (hlive : w.heap.isLive n)
    (Parameters : List (Option ParamId)) :
    Caches U w (endOf (w.outResult (.data n) Parameters)) := by
  rcases Parameters with _ | ⟨P, _ | ⟨Q, Parameters⟩⟩
  · exact .refl
  · exact caches_castBoolean h hn hlive P _
  · exact .refl

theorem caches_literalResult (h : w.Ready) {n : NodeId} (hn : n ∈ U) (hlive : w.heap.isLive n)
    (Parameters : List (Option ParamId)) :
    Caches U w (endOf (w.literalResult (.data n) Parameters)) := by
  rcases Parameters with _ | ⟨P, _ | ⟨Q, Parameters⟩⟩
  · exact caches_cacheBoolean h hn hlive true
  · exact caches_castBoolean h hn hlive P _
  · exact .refl

theorem Simulates.of_ok {α β : Type} {Rel : World → α → β → Prop} {a : α}
    {s : Option (Except Stop β)} (h : Simulates w Rel (.ok (w', a)) s) :
    w'.Ready ∧ Keeps w w' := by
  cases h with
  | value ready keeps => exact ⟨ready, keeps⟩

/-- What holds of the nested calls carries over to the loop that makes them. -/
theorem collectOutputs_caches
    {OutputGet : World → FilterId → Except Stopped (World × Option ParamId)} {depth : Nat}
    (hget : OutputGet = outputGet depth) (hlive : ∀ n ∈ U, w₀.heap.isLive n)
    (hcall : ∀ w n, w.Ready → Keeps w₀ w → n ∈ U → Caches U w (endOf (OutputGet w (.data n))))
    (h : w.Ready) (hk : Keeps w₀ w) {ns : List NodeId} (hns : ∀ n ∈ ns, n ∈ U) :
    Caches U w (endOf (collectOutputs OutputGet w (ns.map .obj))) := by
  induction ns generalizing w with
  | nil => exact .refl
  | cons n ns ih =>
    have hn := hns n List.mem_cons_self
    rw [List.map_cons, collectOutputs]
    apply (hcall w n h hk hn).bind
    intro w' P hw'
    obtain ⟨hready, hkeeps⟩ : w'.Ready ∧ Keeps w w' := by
      have hlive' : w.heap.isLive n := by
        rw [hk.heap]
        exact hlive n hn
      have hsim := outputGet_simulates h hlive' depth
      rw [hget] at hw'
      rw [hw'] at hsim
      exact hsim.of_ok
    apply (ih hready (hk.trans hkeeps) fun m hm => hns m (List.mem_cons_of_mem n hm)).bind
    intro w'' Output _
    exact .refl

/-- An evaluation writes to the nodes of any set that it cannot leave. -/
theorem outputGet_caches_of_closed (hlive : ∀ n ∈ U, w₀.heap.isLive n)
    (hclosed : ∀ n ∈ U, ∀ p ∈ w₀.shape.preds n, p ∈ U) (depth : Nat) :
    ∀ w n, w.Ready → Keeps w₀ w → n ∈ U → Caches U w (endOf (w.outputGet depth (.data n))) := by
  induction depth with
  | zero =>
    intro w n _ _ _
    exact .refl
  | succ depth ih =>
    intro w n h hk hn
    have hn' : w.heap.isLive n := by
      rw [hk.heap]
      exact hlive n hn
    obtain ⟨node, hnode, hparent⟩ := h.wired n hn'
    have hinputs : Caches U w (endOf (inputParametersGet (outputGet depth) w node)) := by
      rw [inputParametersGet_eq h.sound hn' hparent]
      apply collectOutputs_caches rfl hlive ih h hk
      intro p hp
      rw [hk.shape] at hp
      exact hclosed n hn p hp
    have hready : ∀ w' Parameters, inputParametersGet (outputGet depth) w node =
        .ok (w', Parameters) → w'.Ready ∧ w'.heap.isLive n := by
      intro w' Parameters hcollected
      have hcall : ∀ v m, v.Ready → Keeps w v → v.heap.isLive m →
          Simulates v HasValue (v.outputGet depth (.data m)) (w.shape.evaluate depth m) := by
        intro v m hv hkv hm
        have hsim := outputGet_simulates hv hm depth
        rwa [hkv.shape] at hsim
      have hsim := inputParametersGet_simulates h hn' hparent hcall
      rw [hcollected] at hsim
      obtain ⟨ready, keeps⟩ := hsim.of_ok
      refine ⟨ready, ?_⟩
      rw [keeps.heap]
      exact hn'
    cases hkind : node.kind with
    | filterNode =>
      simp only [outputGet, hnode, hkind]
      exact .refl
    | fnOut =>
      simp only [outputGet, hnode, hkind]
      apply hinputs.bind
      intro w' Parameters hcollected
      obtain ⟨hw', hlive'⟩ := hready w' Parameters hcollected
      exact caches_outResult hw' hn hlive' Parameters
    | fnBooleanLiteral =>
      simp only [outputGet, hnode, hkind]
      apply hinputs.bind
      intro w' Parameters hcollected
      obtain ⟨hw', hlive'⟩ := hready w' Parameters hcollected
      exact caches_literalResult hw' hn hlive' Parameters

end Evaluation

theorem outputGet_caches (h : w.Ready) {n : NodeId} (hn : w.heap.isLive n) (depth : Nat) :
    Caches (w.upstream n) w (endOf (w.outputGet depth (.data n))) := by
  refine outputGet_caches_of_closed ?_ ?_ depth w n h (.refl w) .refl
  · intro m hm
    exact isLive_of_upstream h hn hm
  · intro m hm p hp
    exact .head hp hm

/-! ## One assignment -/

/-- A parameter that was allocated and that no filter node has. -/
def Loose (w : World) (p : ParamId) : Prop :=
  (∃ P, w.store p = some P) ∧ ∀ f, w.cachedOutputOf f ≠ some p

/-- The cached output of `f` is replaced by `c`, and deleted. -/
structure Replaces (w w' : World) (f : FilterId) (c : Option ParamId) : Prop where
  cached : ∀ g, w'.cachedOutputOf g = if g = f then c else w.cachedOutputOf g
  store : ∀ q, w'.store q = if w.cachedOutputOf f = some q then none else w.store q

theorem Replaces.loose {f : FilterId} {c : Option ParamId} (h : w.Replaces w' f c) (p : ParamId) :
    w'.Loose p ↔ w.Loose p ∧ c ≠ some p := by
  have hstore := h.store p
  constructor
  · intro hloose
    have hold : w.cachedOutputOf f ≠ some p := by
      intro hold
      obtain ⟨P, hP⟩ := hloose.1
      rw [hstore, if_pos hold] at hP
      cases hP
    rw [if_neg hold] at hstore
    refine ⟨⟨by rw [← hstore]; exact hloose.1, ?_⟩, ?_⟩
    · intro g
      by_cases hg : g = f
      · rw [hg]
        exact hold
      · have hcached := h.cached g
        rw [if_neg hg] at hcached
        rw [← hcached]
        exact hloose.2 g
    · have hcached := h.cached f
      rw [if_pos rfl] at hcached
      rw [← hcached]
      exact hloose.2 f
  · intro hloose
    obtain ⟨hloose, hc⟩ := hloose
    rw [if_neg (hloose.2 f)] at hstore
    refine ⟨by rw [hstore]; exact hloose.1, ?_⟩
    intro g
    rw [h.cached]
    split
    · exact hc
    · exact hloose.2 g

theorem deleteParameter_store (h : w.Owned) {f : FilterId} {node : FilterNode}
    (hf : w.filters f = some node) (hdelete : w.deleteParameter node.cachedOutput = .ok w') :
    w'.filters = w.filters ∧
      ∀ q, w'.store q = if w.cachedOutputOf f = some q then none else w.store q := by
  obtain ⟨v, hv, -, hfilters, -, hgone, hstay⟩ := deleteParameter_owned h hf
  rw [hv] at hdelete
  cases hdelete
  have hcached : w.cachedOutputOf f = node.cachedOutput := by
    rw [cachedOutputOf, hf]
    rfl
  refine ⟨hfilters, ?_⟩
  intro q
  rw [hcached]
  split
  · rename_i hold
    exact hgone q hold
  · rename_i hold
    exact hstay q hold

theorem cachedOutputOf_setFilter (w : World) (f g : FilterId) (new : Option FilterNode) :
    (w.setFilter f new).cachedOutputOf g =
      if g = f then new.bind FilterNode.cachedOutput else w.cachedOutputOf g := by
  rw [cachedOutputOf, setFilter_filters]
  split
  · rfl
  · rfl

theorem cachedOutputSet_replaces (h : w.Owned) {f : FilterId} {node : FilterNode}
    (hf : w.filters f = some node) {c c' : Option ParamId}
    (hcall : w.cachedOutputSet f c = .ok (w', c')) : w.Replaces w' f c := by
  simp only [cachedOutputSet, hf] at hcall
  cases hdelete : w.deleteParameter node.cachedOutput with
  | error stopped =>
    rw [hdelete] at hcall
    cases hcall
  | ok v =>
    rw [hdelete] at hcall
    cases hcall
    obtain ⟨hfilters, hstore⟩ := deleteParameter_store h hf hdelete
    refine ⟨?_, hstore⟩
    intro g
    rw [cachedOutputOf_setFilter, cachedOutputOf, hfilters]
    rfl

theorem destroyFilter_replaces (h : w.Owned) {f : FilterId} (hcall : w.destroyFilter f = .ok w') :
    w.Replaces w' f none := by
  cases hf : w.filters f with
  | none => simp [destroyFilter, hf] at hcall
  | some node =>
    simp only [destroyFilter, hf] at hcall
    cases hdelete : w.deleteParameter node.cachedOutput with
    | error stopped =>
      rw [hdelete] at hcall
      cases hcall
    | ok v =>
      rw [hdelete] at hcall
      cases hcall
      obtain ⟨hfilters, hstore⟩ := deleteParameter_store h hf hdelete
      refine ⟨?_, hstore⟩
      intro g
      rw [cachedOutputOf_setFilter, cachedOutputOf, hfilters]
      rfl

theorem Owned.not_loose (h : w.Owned) {p : ParamId} (hp : w.nextParam ≤ p) : ¬ w.Loose p := by
  intro hloose
  obtain ⟨P, hP⟩ := hloose.1
  rw [h.fresh p hp] at hP
  cases hP

theorem newParameter_loose (h : w.Owned) (P : Parameter) (p : ParamId) :
    (w.newParameter P).1.Loose p ↔ p = w.nextParam ∨ w.Loose p := by
  by_cases hp : p = w.nextParam
  · refine ⟨fun _ => .inl hp, ?_⟩
    intro _
    refine ⟨⟨P, by simp [newParameter, hp]⟩, ?_⟩
    intro f hf
    have hlt := h.cached_lt hf
    rw [hp] at hlt
    exact Nat.lt_irrefl _ hlt
  · have hstore : (w.newParameter P).1.store p = w.store p := Function.update_of_ne hp ..
    simp only [Loose, hstore, hp, false_or]
    rfl

theorem cacheBoolean_replaces (h : w.Owned) {f : FilterId} {node : FilterNode}
    (hf : w.filters f = some node) {b : Bool} {P : Option ParamId}
    (hcall : w.cacheBoolean f b = .ok (w', P)) :
    (w.newParameter (.boolean b)).1.Replaces w' f (some w.nextParam) :=
  cachedOutputSet_replaces (newParameter_owned h (.boolean b)) hf hcall

/-- The new boolean is cached at once, so no other parameter becomes loose. -/
theorem cacheBoolean_loose (h : w.Owned) {f : FilterId} {node : FilterNode}
    (hf : w.filters f = some node) {b : Bool} {P : Option ParamId}
    (hcall : w.cacheBoolean f b = .ok (w', P)) (p : ParamId) : w'.Loose p ↔ w.Loose p := by
  rw [(cacheBoolean_replaces h hf hcall).loose, newParameter_loose h]
  constructor
  · intro hp
    exact hp.1.resolve_left fun heq => hp.2 (congrArg some heq.symm)
  · intro hp
    refine ⟨.inr hp, ?_⟩
    intro heq
    exact h.not_loose (Nat.le_of_eq (Option.some.inj heq)) hp

theorem cacheBoolean_store (h : w.Owned) {f : FilterId} {node : FilterNode}
    (hf : w.filters f = some node) {b : Bool} {P : Option ParamId}
    (hcall : w.cacheBoolean f b = .ok (w', P)) {q : ParamId} (hq : q ≠ w.nextParam) :
    w'.store q = if w.cachedOutputOf f = some q then none else w.store q := by
  have hstore : (w.newParameter (.boolean b)).1.store q = w.store q :=
    Function.update_of_ne hq ..
  rw [(cacheBoolean_replaces h hf hcall).store q, hstore]
  rfl

/-! ## What an evaluation leaves alone -/

/-- The cached output of `f` was replaced by a new boolean, and deleted. -/
def Renewed (w w' : World) (f : FilterId) : Prop :=
  (∃ q b, w'.cachedOutputOf f = some q ∧ w.nextParam ≤ q ∧ w'.store q = some (.boolean b)) ∧
    ∀ p, w.cachedOutputOf f = some p → w'.store p = none

/-- The graph and the filter nodes are the same but for cached outputs of `U`; each of these is
untouched or renewed, and everything that nobody has cached is still there, and nothing else. -/
structure Evaluated (U : Set NodeId) (w w' : World) : Prop where
  ready : w'.Ready
  keeps : Keeps w w'
  later : w.nextParam ≤ w'.nextParam
  outside : ∀ f, (∀ m ∈ U, f ≠ .data m) → w.Untouched w' f
  inside : ∀ m ∈ U, w.Untouched w' (.data m) ∨ w.Renewed w' (.data m)
  loose : ∀ p, w'.Loose p ↔ w.Loose p
  kept : ∀ p, w.Loose p → w'.store p = w.store p

theorem Evaluated.refl (h : w.Ready) (U : Set NodeId) : Evaluated U w w where
  ready := h
  keeps := .refl w
  later := Nat.le_refl _
  outside _ _ := ⟨rfl, fun _ _ => rfl⟩
  inside _ _ := .inl ⟨rfl, fun _ _ => rfl⟩
  loose _ := .rfl
  kept _ _ := rfl

theorem Renewed.later {f : FilterId} (h : w.Renewed w' f) (h' : w'.Untouched w'' f)
    (hgone : ∀ p, w.cachedOutputOf f = some p → w'.store p = none → w''.store p = none) :
    w.Renewed w'' f := by
  obtain ⟨⟨q, b, hq, hlater, hstore⟩, hold⟩ := h
  refine ⟨⟨q, b, h'.cachedOutputOf.trans hq, hlater, (h'.2 q hq).trans hstore⟩, ?_⟩
  intro p hp
  exact hgone p hp (hold p hp)

theorem Evaluated.cacheBoolean {U : Set NodeId} (h₀ : w.Ready) (h : Evaluated U w w') {n : NodeId}
    (hn : n ∈ U) (hlive : w.heap.isLive n) {b : Bool} {P : Option ParamId}
    (hcall : w'.cacheBoolean (.data n) b = .ok (w'', P)) : Evaluated U w w'' := by
  have hlive' : w'.heap.isLive n := by
    rw [h.keeps.heap]
    exact hlive
  obtain ⟨node, hnode, -⟩ := h.ready.wired n hlive'
  obtain ⟨v, hv, howned, hkeeps, hnext, hcached, hstore, hothers⟩ :=
    cacheBoolean_spec h.ready.owned hnode b
  have hdeleted := fun q hq => cacheBoolean_store h.ready.owned hnode hcall (q := q) hq
  have hloose := cacheBoolean_loose h.ready.owned hnode hcall
  rw [hv] at hcall
  cases hcall
  have hold : ∀ f p, w.cachedOutputOf f = some p → p ≠ w'.nextParam := by
    intro f p hp
    exact Nat.ne_of_lt (Nat.lt_of_lt_of_le (h₀.owned.cached_lt hp) h.later)
  have hgone : ∀ f p, w.cachedOutputOf f = some p → w'.store p = none → w''.store p = none := by
    intro f p hp hnone
    rw [hdeleted p (hold f p hp), hnone, ite_self]
  refine ⟨h.ready.keeps hkeeps howned, h.keeps.trans hkeeps, ?_, ?_, ?_, ?_, ?_⟩
  · rw [hnext]
    exact Nat.le_succ_of_le h.later
  · intro f hf
    exact (h.outside f hf).trans (hothers f (hf n hn))
  · intro m hm
    by_cases hmn : m = n
    · subst m
      refine .inr ⟨⟨_, b, hcached, h.later, hstore⟩, ?_⟩
      intro p hp
      -- the output of before is deleted by this assignment, or was by an earlier one
      rcases h.inside n hn with hsame | hnew
      · rw [hdeleted p (hold _ p hp), if_pos (hsame.cachedOutputOf.trans hp)]
      · exact hgone _ p hp (hnew.2 p hp)
    · have hother := hothers (.data m) (by simpa using hmn)
      rcases h.inside m hm with hsame | hnew
      · exact .inl (hsame.trans hother)
      · exact .inr (hnew.later hother (hgone (.data m)))
  · intro p
    rw [hloose, h.loose]
  · intro p hp
    have hp' := (h.loose p).mpr hp
    have hpn : p ≠ w'.nextParam := by
      intro heq
      exact h.ready.owned.not_loose (Nat.le_of_eq heq.symm) hp'
    rw [hdeleted p hpn, if_neg (hp'.2 _), h.kept p hp]

theorem Caches.evaluated {U : Set NodeId} (h : w.Ready) (hlive : ∀ n ∈ U, w.heap.isLive n)
    (hcaches : Caches U w w') : Evaluated U w w' := by
  induction hcaches with
  | refl => exact .refl h U
  | tail _ hn hcall ih => exact ih.cacheBoolean h hn (hlive _ hn) hcall

theorem outputGet_evaluated (h : w.Ready) {n : NodeId} (hn : w.heap.isLive n) (depth : Nat) :
    Evaluated (w.upstream n) w (endOf (w.outputGet depth (.data n))) :=
  (outputGet_caches h hn depth).evaluated h fun _ hm => isLive_of_upstream h hn hm

theorem evaluateFilter_evaluated (h : w.Ready) {n : NodeId} (hn : w.heap.isLive n) {depth : Nat}
    (hcall : w.evaluateFilter (.data n) depth = .ok w') : Evaluated (w.upstream n) w w' := by
  have heffect := outputGet_evaluated h hn depth
  unfold evaluateFilter at hcall
  split at hcall
  · rename_i hget
    cases hcall
    rwa [hget] at heffect
  · rename_i hget
    cases hcall
    rwa [hget] at heffect
  · cases hcall

end World

end Unotu.Filter
