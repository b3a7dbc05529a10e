import Unotu.Filter.Building

/-!
# When an evaluation ends

The recursion of `OutputGet` follows the edges backwards without a set of visited nodes.
Which predecessors it reaches is read off the graph: the nodes that yield a value are
plain nodes and the ends of chains of single predecessors that start at a literal without
input, and a node demands a predecessor when all the ones before it yield. An evaluation
ends exactly when it reaches no cycle of demands.
-/

set_option autoImplicit false

namespace Unotu.Filter

open Unotu.Graph Relation

namespace Shape

variable {S : Shape}

/-- The evaluation of the node returns. -/
inductive Yields (S : Shape) : NodeId → Prop where
  | plain {n : NodeId} (hkind : S.kind n = .filterNode) : Yields S n
  | literal {n : NodeId} (hkind : S.kind n = .fnBooleanLiteral) (hpreds : S.preds n = []) :
      Yields S n
  | pass {n p : NodeId} (hkind : S.kind n ≠ .filterNode) (hpreds : S.preds n = [p])
      (hp : S.kind p ≠ .filterNode) (yields : Yields S p) : Yields S n

/-- `n` evaluates its predecessor `p`: it has inputs and those before `p` yield. -/
def Demanded (S : Shape) (p n : NodeId) : Prop :=
  S.kind n ≠ .filterNode ∧ ∃ before after, S.preds n = before ++ p :: after ∧
    ∀ q ∈ before, S.Yields q

theorem deps_of_plain {n : NodeId} (h : S.kind n = .filterNode) : S.deps n = [] := by
  simp only [deps, h]

theorem deps_of_not_plain {n : NodeId} (h : S.kind n ≠ .filterNode) : S.deps n = S.preds n := by
  unfold deps
  split
  · rename_i hkind
    exact absurd hkind h
  · rfl

theorem combine_plain {n : NodeId} (h : S.kind n = .filterNode) (vs : List Value) :
    S.combine n vs = .ok none := by
  simp only [combine, h]

theorem combine_single {n : NodeId} (h : S.kind n ≠ .filterNode) (b : Bool) :
    S.combine n [some b] = .ok (some b) := by
  cases hkind : S.kind n with
  | filterNode => exact absurd hkind h
  | fnOut => simp only [combine, hkind]
  | fnBooleanLiteral => simp only [combine, hkind]

theorem combine_ok {n : NodeId} (h : S.kind n ≠ .filterNode) {vs : List Value} {v : Value}
    (hv : S.combine n vs = .ok v) :
    ∃ b, v = some b ∧ (vs = [some b] ∨ vs = [] ∧ S.kind n = .fnBooleanLiteral) := by
  unfold combine at hv
  split at hv
  · rename_i hkind
    exact absurd hkind h
  · cases hv
  · cases hv
  · cases hv
    exact ⟨_, rfl, Or.inl rfl⟩
  · cases hv
  · rename_i hkind
    cases hv
    exact ⟨_, rfl, Or.inr ⟨rfl, hkind⟩⟩
  · cases hv
  · cases hv
    exact ⟨_, rfl, Or.inl rfl⟩
  · cases hv

/-- An evaluation by itself raises user errors and fails assertions, and nothing else. -/
theorem combine_error {n : NodeId} {vs : List Value} {e : Stop} (h : S.combine n vs = .error e) :
    (∃ What Source, e = .userError What Source) ∨ ∃ message, e = .fault (.assertion message) := by
  unfold combine at h
  split at h <;> cases h
  · exact Or.inl ⟨_, _, rfl⟩
  · exact Or.inr ⟨_, rfl⟩
  · exact Or.inl ⟨_, _, rfl⟩
  · exact Or.inr ⟨_, rfl⟩
  · exact Or.inr ⟨_, rfl⟩

theorem evaluate_error {d : Nat} {n : NodeId} {e : Stop}
    (h : S.evaluate d n = some (.error e)) :
    (∃ What Source, e = .userError What Source) ∨ ∃ message, e = .fault (.assertion message) := by
  obtain ⟨m, -, vs, -, -, hm⟩ :=
    Demand.exists_combine_error (Q := fun _ => True) (fun _ _ _ _ => trivial) trivial h
  exact combine_error hm

theorem evaluate_ok {d : Nat} {n : NodeId} {v : Value} (h : S.evaluate (d + 1) n = some (.ok v)) :
    ∃ vs, Demand.inputs (S.evaluate d) (S.deps n) = some (.ok vs) ∧ S.combine n vs = .ok v := by
  rw [evaluate, Demand.eval] at h
  change Demand.andThen (Demand.inputs (S.evaluate d) (S.deps n)) (S.combine n) = _ at h
  cases hi : Demand.inputs (S.evaluate d) (S.deps n) with
  | none => simp [hi, Demand.andThen] at h
  | some r =>
    cases r with
    | error e => simp [hi, Demand.andThen] at h
    | ok vs =>
      simp only [hi, Demand.andThen, Option.some.injEq] at h
      exact ⟨vs, rfl, h⟩

theorem evaluate_eq_none_iff {d : Nat} {n : NodeId} {v : Value}
    (h : S.evaluate d n = some (.ok v)) : v = none ↔ S.kind n = .filterNode := by
  cases d with
  | zero => cases h
  | succ d =>
    obtain ⟨vs, -, hcombine⟩ := evaluate_ok h
    by_cases hkind : S.kind n = .filterNode
    · rw [combine_plain hkind] at hcombine
      cases hcombine
      simp [hkind]
    · obtain ⟨b, rfl, -⟩ := combine_ok hkind hcombine
      simp [hkind]

theorem yields_of_evaluate {d : Nat} {n : NodeId} {v : Value}
    (h : S.evaluate d n = some (.ok v)) : S.Yields n := by
  induction d generalizing n v with
  | zero => cases h
  | succ d ih =>
    obtain ⟨vs, hinputs, hcombine⟩ := evaluate_ok h
    by_cases hkind : S.kind n = .filterNode
    · exact .plain hkind
    · rw [deps_of_not_plain hkind] at hinputs
      obtain ⟨b, -, rfl | ⟨rfl, hliteral⟩⟩ := combine_ok hkind hcombine
      · obtain ⟨p, hpreds, hp⟩ := Demand.inputs_eq_singleton hinputs
        refine .pass hkind hpreds ?_ (ih hp)
        intro hplain
        have hnone := (evaluate_eq_none_iff hp).mpr hplain
        cases hnone
      · have hlength := Demand.inputs_length hinputs
        exact .literal hliteral (List.eq_nil_of_length_eq_zero hlength.symm)

theorem Yields.returns {n : NodeId} (h : S.Yields n) : Demand.Returns S.deps S.combine n := by
  induction h with
  | plain hkind =>
    refine ⟨1, none, ?_⟩
    simp only [Demand.eval, deps_of_plain hkind, Demand.inputs, Demand.andThen, combine_plain hkind]
  | @literal n hkind hpreds =>
    have hdeps : S.deps n = [] := by simp only [deps, hkind, hpreds]
    refine ⟨1, some true, ?_⟩
    simp only [Demand.eval, hdeps, Demand.inputs, Demand.andThen, combine, hkind]
  | @pass n p hkind hpreds hp _ ih =>
    obtain ⟨d, v, hv⟩ := ih
    cases v with
    | none => exact absurd ((evaluate_eq_none_iff hv).mp rfl) hp
    | some b =>
      refine ⟨d + 1, some b, ?_⟩
      simp only [Demand.eval, deps_of_not_plain hkind, hpreds, Demand.inputs, hv, Demand.andThen,
        combine_single hkind]

theorem yields_iff_returns {n : NodeId} : S.Yields n ↔ Demand.Returns S.deps S.combine n := by
  constructor
  · exact Yields.returns
  · rintro ⟨d, v, hv⟩
    exact yields_of_evaluate hv

theorem demanded_iff {p n : NodeId} :
    S.Demanded p n ↔ Demand.Demands S.deps S.combine p n := by
  simp only [Demanded, Demand.Demands, ← yields_iff_returns]
  by_cases hkind : S.kind n = .filterNode
  · simp [hkind, deps_of_plain hkind]
  · simp [hkind, deps_of_not_plain hkind]

end Shape

namespace World

variable {w : World} {M : Multigraph NodeId EdgeId}

/-- Finitely many calls lead to a value, a user error or a failed assertion. -/
def Finishes (w : World) (f : FilterId) : Prop :=
  ∃ depth w',
    (∃ P, w.outputGet depth f = .ok (w', P)) ∨
    (∃ What Source, w.outputGet depth f = .error (w', .userError What Source)) ∨
    ∃ message, w.outputGet depth f = .error (w', .fault (.assertion message))

theorem finishes_iff_terminates (h : w.Built M) {n : NodeId} (hn : w.heap.isLive n) :
    w.Finishes (.data n) ↔ Demand.Terminates w.shape.deps w.shape.combine n := by
  constructor
  · rintro ⟨depth, w', hfinish⟩
    refine ⟨depth, ?_⟩
    have hsim := outputGet_simulates h.ready hn depth
    change ∃ r, w.shape.evaluate depth n = some r
    generalize w.shape.evaluate depth n = s at hsim
    cases s with
    | some r => exact ⟨r, rfl⟩
    | none =>
      generalize w.outputGet depth (.data n) = r at hsim hfinish
      cases hsim
      rcases hfinish with ⟨P, heq⟩ | ⟨What, Source, heq⟩ | ⟨message, heq⟩
      · cases heq
      · cases heq
      · cases heq
  · rintro ⟨depth, r, hr⟩
    refine ⟨depth, ?_⟩
    change w.shape.evaluate depth n = some r at hr
    have hsim := outputGet_simulates h.ready hn depth
    rw [hr] at hsim
    generalize w.outputGet depth (.data n) = call at hsim
    cases hsim with
    | value => exact ⟨_, Or.inl ⟨_, rfl⟩⟩
    | stop =>
      rcases Shape.evaluate_error hr with ⟨What, Source, rfl⟩ | ⟨message, rfl⟩
      · exact ⟨_, Or.inr (Or.inl ⟨What, Source, rfl⟩)⟩
      · exact ⟨_, Or.inr (Or.inr ⟨message, rfl⟩)⟩

/-- A demanded node is a predecessor, so only nodes of the graph are reached. -/
theorem finite_reachable (h : w.Built M) {n : NodeId} (hn : w.heap.isLive n) :
    {m | ReflTransGen w.shape.Demanded m n}.Finite := by
  apply h.finite.subset
  intro m hm
  induction hm using ReflTransGen.head_induction_on with
  | refl => exact (h.represents.nodes n).mp hn
  | @head p m hp _ ih =>
    obtain ⟨-, before, after, hpreds, -⟩ := hp
    have hm := (h.represents.nodes m).mpr ih
    have hmem : p ∈ w.shape.preds m := by simp [hpreds]
    exact (h.represents.nodes p).mp (isLive_of_mem_preds h.sound hm hmem)

theorem finishes_iff_no_cycle (h : w.Built M) {n : NodeId} (hn : w.heap.isLive n) :
    w.Finishes (.data n) ↔
      ∀ m, ReflTransGen w.shape.Demanded m n → ¬ TransGen w.shape.Demanded m m := by
  have hsame : Demand.Demands w.shape.deps w.shape.combine = w.shape.Demanded := by
    funext p m
    exact propext Shape.demanded_iff.symm
  rw [finishes_iff_terminates h hn, Demand.terminates_iff_acc, hsame]
  exact Demand.acc_iff_no_cycle (finite_reachable h hn)

/-- In every graph that can be built, `OutputGet` of a node finishes exactly when it reaches
no cycle of demands. -/
theorem run_finishes_iff (ops : List BuildOp) :
    ∃ w, Runs.run World.build World.empty ops = .ok w ∧
      ∀ n, w.heap.isLive n → (w.Finishes (.data n) ↔
        ∀ m, ReflTransGen w.shape.Demanded m n → ¬ TransGen w.shape.Demanded m m) := by
  obtain ⟨w, hw, M, hbuilt⟩ := run_built ops
  exact ⟨w, hw, fun n hn => finishes_iff_no_cycle hbuilt hn⟩

def selfConnected : List BuildOp :=
  [.makeGraph 0, .makeFilter 0 fnBooleanLiteral, .nodeAdd 0 0, .connectTo 0 (.obj 0) 0]

theorem self_connected_does_not_finish :
    ∃ w, Runs.run World.build World.empty selfConnected = .ok w ∧ w.heap.isLive 0 ∧
      ¬ w.Finishes (.data 0) := by
  obtain ⟨w, hw, M, hbuilt⟩ := run_built selfConnected
  have hshape : w.heap.isLive 0 ∧ w.shape.kind 0 = .fnBooleanLiteral ∧ w.shape.preds 0 = [0] := by
    have hrun : ∃ w', Runs.run World.build World.empty selfConnected = .ok w' ∧
        w'.heap.isLive 0 ∧ w'.shape.kind 0 = .fnBooleanLiteral ∧ w'.shape.preds 0 = [0] :=
      ⟨_, rfl, rfl, rfl, rfl⟩
    obtain ⟨w', hw', hrest⟩ := hrun
    rw [hw] at hw'
    cases hw'
    exact hrest
  obtain ⟨hlive, hkind, hpreds⟩ := hshape
  refine ⟨w, hw, hlive, ?_⟩
  rw [finishes_iff_no_cycle hbuilt hlive]
  intro hcycle
  apply hcycle 0 .refl
  refine .single ⟨?_, [], [], hpreds, by simp⟩
  rw [hkind]
  exact FilterKind.noConfusion

end World

end Unotu.Filter
