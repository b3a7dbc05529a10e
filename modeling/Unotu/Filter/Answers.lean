import Unotu.Filter.Interleaving
import Unotu.Library.Renaming

/-!
# What an evaluation returns

A value goes from a literal without input down a path of nodes with one input each, and so it is
always `true`. The addresses of the nodes, which order every set of predecessors, do not matter
for it.
-/

set_option autoImplicit false

namespace Unotu.Filter

open Unotu.Graph

namespace Shape

variable {S S' : Shape}

/-- No order of the inputs is looked at. -/
theorem Combines.perm {n n' : NodeId} (hkind : S'.kind n' = S.kind n) {vs vs' : List Value}
    (hperm : vs'.Perm vs) {v : Value} (h : S.Combines n vs v) : S'.Combines n' vs' v := by
  cases h with
  | plain h => exact .plain (hkind.trans h)
  | literal h =>
    rw [hperm.eq_nil]
    exact .literal (hkind.trans h)
  | pass h =>
    rw [List.perm_singleton.mp hperm]
    exact .pass (by rw [hkind]; exact h)

end Shape

namespace World

variable {w w' : World} {M M' : Multigraph NodeId EdgeId}

theorem outcome_eq_ok_iff (h : w.Ready) {n : NodeId} (hn : w.heap.isLive n) (depth : Nat)
    (v : Value) : w.outcome n depth = .ok v ↔ w.shape.evaluate depth n = some (.ok v) := by
  rw [outcome_eq h hn]
  cases w.shape.evaluate depth n with
  | none => simp
  | some r => simp

/-- In every state of every run, an evaluation at a depth returns null for a plain node, and
otherwise only ever `true`: exactly when a literal without input feeds the node through a path
that is not longer than the depth. -/
theorem run_returns_iff {ops : List FilterOp}
    (hc : Runs.EveryStep step OwnersCondition World.empty ops) {w : World}
    (hw : Runs.run step World.empty ops = .ok w) {n : NodeId} (hn : w.heap.isLive n) (depth : Nat)
    (v : Value) :
    w.outcome n depth = .ok v ↔
      0 < depth ∧ w.shape.kind n = .filterNode ∧ v = none ∨
        v = some true ∧ ∃ d, d ≤ depth ∧ w.shape.Fed n d := by
  obtain ⟨M, hbuilt⟩ := run_built_of_owners hc hw
  rw [outcome_eq_ok_iff hbuilt.ready hn, Shape.evaluate_eq_ok_iff]

theorem run_returns_iff_evaluatedThenCut :
    ∃ w, Runs.run step World.empty evaluatedThenCut = .ok w ∧
      (w.outcome 1 5 = .ok (some true) ↔
        0 < 5 ∧ w.shape.kind 1 = .filterNode ∧ some true = none ∨
          some true = some true ∧ ∃ d, d ≤ 5 ∧ w.shape.Fed 1 d) := by
  obtain ⟨w, hw, hlive⟩ := evaluatedThenCut_run
  exact ⟨w, hw, run_returns_iff evaluatedThenCut_owners hw hlive 5 (some true)⟩

/-! ## Other addresses -/

/-- `σ` carries the living nodes of one world over to another, kinds and predecessors included. -/
structure Renames (σ : NodeId → NodeId) (w w' : World) : Prop where
  injective : Function.Injective σ
  live : ∀ n, w.heap.isLive n → w'.heap.isLive (σ n)
  kind : ∀ n, w.heap.isLive n → w'.shape.kind (σ n) = w.shape.kind n
  preds : ∀ n, w.heap.isLive n → ∀ q, q ∈ w'.shape.preds (σ n) ↔ ∃ p ∈ w.shape.preds n, σ p = q

theorem Renames.preds_perm {σ : NodeId → NodeId} (hσ : Renames σ w w') (h : w.Built M)
    (h' : w'.Built M') {n : NodeId} (hn : w.heap.isLive n) :
    (w'.shape.preds (σ n)).Perm ((w.shape.preds n).map σ) := by
  rw [List.perm_ext_iff_of_nodup (preds_nodup h' (hσ.live n hn))
    ((preds_nodup h hn).map hσ.injective)]
  intro q
  rw [hσ.preds n hn, List.mem_map]

theorem Renames.evaluate_iff {σ : NodeId → NodeId} (hσ : Renames σ w w') (h : w.Built M)
    (h' : w'.Built M') {n : NodeId} (hn : w.heap.isLive n) (depth : Nat) (v : Value) :
    w.shape.evaluate depth n = some (.ok v) ↔ w'.shape.evaluate depth (σ n) = some (.ok v) := by
  have hdeps : ∀ m, w.shape.deps m = if w.shape.kind m = .filterNode then [] else w.shape.preds m := by
    intro m
    split
    · rename_i hkind
      exact Shape.deps_of_plain hkind
    · rename_i hkind
      exact Shape.deps_of_not_plain hkind
  refine @Demand.eval_rename _ _ _ _ _ _ _ _ _ σ (fun m => w.heap.isLive m) ?_ ?_ ?_ depth n hn v
  · intro m hm p hp
    rw [hdeps] at hp
    split at hp
    · cases hp
    · exact isLive_of_mem_preds h.sound hm hp
  · intro m hm
    rw [hdeps]
    split
    · rename_i hkind
      rw [Shape.deps_of_plain ((hσ.kind m hm).trans hkind)]
      exact List.Perm.refl _
    · rename_i hkind
      rw [Shape.deps_of_not_plain (by rw [hσ.kind m hm]; exact hkind)]
      exact hσ.preds_perm h h' hm
  · intro m hm vs vs' v hperm
    rw [Shape.combine_eq_ok_iff, Shape.combine_eq_ok_iff]
    constructor
    · exact Shape.Combines.perm (hσ.kind m hm) hperm
    · exact Shape.Combines.perm (hσ.kind m hm).symm hperm.symm

/-- Two runs that build the same graph, at whatever addresses and in whatever order, answer every
evaluation with the same value or both with none. -/
theorem run_renamed_alike {ops ops' : List FilterOp}
    (hc : Runs.EveryStep step OwnersCondition World.empty ops)
    (hc' : Runs.EveryStep step OwnersCondition World.empty ops') {w w' : World}
    (hw : Runs.run step World.empty ops = .ok w) (hw' : Runs.run step World.empty ops' = .ok w')
    {σ : NodeId → NodeId} (hσ : Renames σ w w') {n : NodeId} (hn : w.heap.isLive n) (depth : Nat)
    (v : Value) : w.outcome n depth = .ok v ↔ w'.outcome (σ n) depth = .ok v := by
  obtain ⟨M, hbuilt⟩ := run_built_of_owners hc hw
  obtain ⟨M', hbuilt'⟩ := run_built_of_owners hc' hw'
  rw [outcome_eq_ok_iff hbuilt.ready hn, outcome_eq_ok_iff hbuilt'.ready (hσ.live n hn)]
  exact hσ.evaluate_iff hbuilt hbuilt' hn depth v

/-- A literal and an `OUT` at the addresses `a` and `b`. -/
def literalInto (a b : NodeId) : List FilterOp :=
  [.build (.makeGraph 0), .build (.makeFilter a fnBooleanLiteral), .build (.makeFilter b fnOut),
    .build (.nodeAdd 0 a), .build (.nodeAdd 0 b), .build (.connectTo a (.obj b) 0)]

theorem literalInto_owners (a b : NodeId) :
    Runs.EveryStep step OwnersCondition World.empty (literalInto a b) := by
  apply Runs.everyStep_of_forall
  simp [literalInto, OwnersCondition]

/-- The two addresses are exchanged. -/
theorem run_renamed_alike_exchanged :
    ∃ w w', Runs.run step World.empty (literalInto 0 1) = .ok w ∧
      Runs.run step World.empty (literalInto 1 0) = .ok w' ∧
      (w.outcome 1 2 = .ok (some true) ↔ w'.outcome 0 2 = .ok (some true)) := by
  have hrun : ∃ w w', Runs.run step World.empty (literalInto 0 1) = .ok w ∧
      Runs.run step World.empty (literalInto 1 0) = .ok w' ∧ w.heap.isLive 1 ∧
      Renames (Equiv.swap 0 1) w w' := by
    refine ⟨_, _, rfl, rfl, rfl, Equiv.injective _, ?_, ?_, ?_⟩
    · intro n hn
      match n with
      | 0 => rfl
      | 1 => rfl
      | n + 2 => cases hn
    · intro n hn
      match n with
      | 0 => rfl
      | 1 => rfl
      | n + 2 => cases hn
    · intro n hn
      match n with
      | 0 =>
        intro q
        change q ∈ ([] : List NodeId) ↔ ∃ p ∈ ([] : List NodeId), Equiv.swap 0 1 p = q
        simp
      | 1 =>
        intro q
        change q ∈ [1] ↔ ∃ p ∈ [0], Equiv.swap 0 1 p = q
        simp [eq_comm]
      | n + 2 => cases hn
  obtain ⟨w, w', hw, hw', hlive, hσ⟩ := hrun
  exact ⟨w, w', hw, hw', run_renamed_alike (literalInto_owners 0 1) (literalInto_owners 1 0) hw hw' hσ
    hlive 2 (some true)⟩

end World

end Unotu.Filter
