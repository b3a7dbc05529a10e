import Unotu.Filter.Termination

/-!
# What feeds a node

A value goes from a literal without input down a path of nodes with one predecessor each. An
evaluation returns a boolean exactly for the nodes that are fed so, and no such path comes back
to one of its nodes.
-/

set_option autoImplicit false

namespace Unotu.Filter

open Unotu.Graph Relation

namespace Shape

variable {S S' : Shape} {n m : NodeId} {d : Nat}

def Pred (S : Shape) (p n : NodeId) : Prop := p ∈ S.preds n

/-- A literal without input feeds `n` through a path of `d` nodes, each the only predecessor of
the next. -/
inductive Fed (S : Shape) : NodeId → Nat → Prop where
  | literal {n : NodeId} (hkind : S.kind n = .fnBooleanLiteral) (hpreds : S.preds n = []) : Fed S n 1
  | pass {n p : NodeId} {d : Nat} (hkind : S.kind n ≠ .filterNode) (hpreds : S.preds n = [p])
      (hp : Fed S p d) : Fed S n (d + 1)

theorem Fed.not_plain (h : S.Fed n d) : S.kind n ≠ .filterNode := by
  cases h with
  | literal hkind =>
    rw [hkind]
    exact FilterKind.noConfusion
  | pass hkind => exact hkind

theorem Fed.unique {d' : Nat} (h : S.Fed n d) (h' : S.Fed n d') : d = d' := by
  induction h generalizing d' with
  | literal _ hpreds =>
    cases h' with
    | literal => rfl
    | pass _ hpreds' =>
      rw [hpreds] at hpreds'
      cases hpreds'
  | pass _ hpreds _ ih =>
    cases h' with
    | literal _ hpreds' =>
      rw [hpreds] at hpreds'
      cases hpreds'
    | pass _ hpreds' hp' =>
      rw [hpreds] at hpreds'
      cases hpreds'
      rw [ih hp']

/-- The nodes on the path are fed by shorter paths. -/
theorem Fed.of_reach (h : S.Fed n d) (hm : ReflTransGen S.Pred m n) : ∃ j, j ≤ d ∧ S.Fed m j := by
  induction h with
  | @literal n hkind hpreds =>
    rcases hm.cases_tail with heq | ⟨p, -, hp⟩
    · rw [← heq]
      exact ⟨1, Nat.le_refl 1, .literal hkind hpreds⟩
    · rw [Pred, hpreds] at hp
      cases hp
  | @pass n p d hkind hpreds hfed ih =>
    rcases hm.cases_tail with heq | ⟨q, hm, hq⟩
    · rw [← heq]
      exact ⟨d + 1, Nat.le_refl _, .pass hkind hpreds hfed⟩
    · rw [Pred, hpreds, List.mem_singleton] at hq
      subst q
      obtain ⟨j, hj, hmj⟩ := ih hm
      exact ⟨j, Nat.le_succ_of_le hj, hmj⟩

/-- A node does not lie on the path that feeds its only predecessor. -/
theorem Fed.not_reach {p : NodeId} (h : S.Fed p d) (hkind : S.kind n ≠ .filterNode)
    (hpreds : S.preds n = [p]) : ¬ ReflTransGen S.Pred n p := by
  intro hreach
  obtain ⟨j, hj, hn⟩ := h.of_reach hreach
  have heq : j = d + 1 := hn.unique (.pass hkind hpreds h)
  omega

/-- In another shape, where each node with inputs is fed or has the class and the predecessors it
had, every node stays fed. -/
theorem Fed.carry {Q : NodeId → Prop} (hclosed : ∀ m, Q m → ∀ p ∈ S.preds m, Q p)
    (hsame : ∀ m, Q m → S.kind m ≠ .filterNode →
      (∃ d, S'.Fed m d) ∨ S'.kind m = S.kind m ∧ (S'.preds m).Perm (S.preds m))
    (hn : Q n) (h : S.Fed n d) : ∃ d', S'.Fed n d' := by
  induction h with
  | @literal n hkind hpreds =>
    rcases hsame n hn (by simp [hkind]) with hfed | ⟨hkind', hperm⟩
    · exact hfed
    · rw [hpreds] at hperm
      exact ⟨1, .literal (hkind'.trans hkind) hperm.eq_nil⟩
  | @pass n p d hkind hpreds _ ih =>
    rcases hsame n hn hkind with hfed | ⟨hkind', hperm⟩
    · exact hfed
    · obtain ⟨d', hp⟩ := ih (hclosed n hn p (by simp [hpreds]))
      rw [hpreds] at hperm
      exact ⟨d' + 1, .pass (by rwa [hkind']) (List.perm_singleton.mp hperm) hp⟩

/-- What the nodes make of their inputs when they do not stop. -/
inductive Combines (S : Shape) (n : NodeId) : List Value → Value → Prop where
  | plain {vs : List Value} (hkind : S.kind n = .filterNode) : Combines S n vs none
  | literal (hkind : S.kind n = .fnBooleanLiteral) : Combines S n [] (some true)
  | pass {b : Bool} (hkind : S.kind n ≠ .filterNode) : Combines S n [some b] (some b)

theorem combine_eq_ok_iff {n : NodeId} {vs : List Value} {v : Value} :
    S.combine n vs = .ok v ↔ S.Combines n vs v := by
  constructor
  · intro h
    cases hkind : S.kind n with
    | filterNode =>
      simp only [combine, hkind, Except.ok.injEq] at h
      subst h
      exact .plain hkind
    | fnOut =>
      rcases vs with _ | ⟨_ | b, _ | ⟨v', vs⟩⟩
      · simp [combine, hkind] at h
      · simp [combine, hkind] at h
      · simp [combine, hkind] at h
      · simp only [combine, hkind, Except.ok.injEq] at h
        subst h
        exact .pass (by simp [hkind])
      · simp [combine, hkind] at h
    | fnBooleanLiteral =>
      rcases vs with _ | ⟨_ | b, _ | ⟨v', vs⟩⟩
      · simp only [combine, hkind, Except.ok.injEq] at h
        subst h
        exact .literal hkind
      · simp [combine, hkind] at h
      · simp [combine, hkind] at h
      · simp only [combine, hkind, Except.ok.injEq] at h
        subst h
        exact .pass (by simp [hkind])
      · simp [combine, hkind] at h
  · intro h
    cases h with
    | plain hkind => simp [combine, hkind]
    | literal hkind => simp [combine, hkind]
    | pass hplain =>
      cases hkind : S.kind n with
      | filterNode => exact absurd hkind hplain
      | fnOut => simp [combine, hkind]
      | fnBooleanLiteral => simp [combine, hkind]

theorem evaluate_eq_ok_iff {depth : Nat} {n : NodeId} {v : Value} :
    S.evaluate depth n = some (.ok v) ↔
      0 < depth ∧ S.kind n = .filterNode ∧ v = none ∨
        v = some true ∧ ∃ d, d ≤ depth ∧ S.Fed n d := by
  induction depth generalizing n v with
  | zero =>
    constructor
    · intro h
      cases h
    · rintro (⟨hpos, -⟩ | ⟨-, d, hd, hfed⟩)
      · cases hpos
      · cases hfed with
        | literal => cases hd
        | pass => cases hd
  | succ depth ih =>
    rw [evaluate, Demand.eval, Demand.andThen_eq_ok_iff]
    constructor
    · rintro ⟨vs, hinputs, hcombine⟩
      cases combine_eq_ok_iff.mp hcombine with
      | plain hkind => exact Or.inl ⟨Nat.succ_pos depth, hkind, rfl⟩
      | literal hkind =>
        have hlength := Demand.inputs_length hinputs
        rw [deps_of_not_plain (by simp [hkind])] at hlength
        exact Or.inr ⟨rfl, 1, by omega, .literal hkind (List.eq_nil_of_length_eq_zero hlength.symm)⟩
      | @pass b hkind =>
        obtain ⟨p, hpreds, hp⟩ := Demand.inputs_eq_singleton hinputs
        rw [deps_of_not_plain hkind] at hpreds
        rcases ih.mp hp with ⟨-, -, hnone⟩ | ⟨hb, d, hd, hfed⟩
        · cases hnone
        · exact Or.inr ⟨hb, d + 1, by omega, .pass hkind hpreds hfed⟩
    · rintro (⟨-, hkind, rfl⟩ | ⟨rfl, d, hd, hfed⟩)
      · refine ⟨[], ?_, combine_eq_ok_iff.mpr (.plain hkind)⟩
        rw [deps_of_plain hkind]
        rfl
      · cases hfed with
        | literal hkind hpreds =>
          refine ⟨[], ?_, combine_eq_ok_iff.mpr (.literal hkind)⟩
          rw [deps_of_not_plain (by simp [hkind]), hpreds]
          rfl
        | @pass _ p d hkind hpreds hp =>
          have heval := ih.mpr (Or.inr ⟨rfl, d, by omega, hp⟩)
          refine ⟨[some true], ?_, combine_eq_ok_iff.mpr (.pass hkind)⟩
          rw [deps_of_not_plain hkind, hpreds, Demand.inputs_eq_ok_iff]
          exact .cons heval .nil

end Shape

end Unotu.Filter
