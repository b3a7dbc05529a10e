import Unotu.Library.Demand
import Mathlib.Data.List.Perm.Basic

/-!
# Renaming the nodes of an evaluation

Where the nodes are kept, and in which order the dependencies of a node come, does not decide
what a demand-driven evaluation returns, as long as combining does not look at their order. The
order may decide which of several errors ends it.
-/

set_option autoImplicit false

universe u u' v w w'

namespace Demand

variable {N : Type u} {N' : Type u'} {V : Type v} {E : Type w} {E' : Type w'}

variable {deps : N → List N} {deps' : N' → List N'} {combine : N → List V → Except E V}
  {combine' : N' → List V → Except E' V} {σ : N → N'}

/-- The nodes that are evaluated are all in `Q`, and `σ` carries each of them with its
dependencies over. -/
theorem eval_rename {Q : N → Prop} (hQ : ∀ n, Q n → ∀ p ∈ deps n, Q p)
    (hdeps : ∀ n, Q n → (deps' (σ n)).Perm ((deps n).map σ))
    (hcombine : ∀ n, Q n → ∀ vs vs' v, vs'.Perm vs →
      (combine n vs = .ok v ↔ combine' (σ n) vs' = .ok v))
    (d : Nat) {n : N} (hn : Q n) (v : V) :
    eval deps combine d n = some (.ok v) ↔ eval deps' combine' d (σ n) = some (.ok v) := by
  induction d generalizing n v with
  | zero => simp [eval]
  | succ d ih =>
    have hmap : ∀ vs, List.Forall₂ (fun p v => eval deps combine d p = some (.ok v)) (deps n) vs ↔
        List.Forall₂ (fun p v => eval deps' combine' d p = some (.ok v)) ((deps n).map σ) vs := by
      intro vs
      rw [List.forall₂_map_left_iff]
      constructor
      · intro h
        have hboth := (List.forall₂_and_left _ _).mpr ⟨hQ n hn, h⟩
        exact hboth.imp fun p v hp => (ih hp.1 v).mp hp.2
      · intro h
        have hboth := (List.forall₂_and_left _ _).mpr ⟨hQ n hn, h⟩
        exact hboth.imp fun p v hp => (ih hp.1 v).mpr hp.2
    rw [eval, eval, andThen_eq_ok_iff, andThen_eq_ok_iff]
    constructor
    · rintro ⟨vs, hinputs, hv⟩
      rw [inputs_eq_ok_iff, hmap] at hinputs
      obtain ⟨vs', hvs', hperm⟩ := List.perm_comp_forall₂ (hdeps n hn) hinputs
      exact ⟨vs', inputs_eq_ok_iff.mpr hvs', (hcombine n hn vs vs' v hperm).mp hv⟩
    · rintro ⟨vs', hinputs, hv⟩
      rw [inputs_eq_ok_iff] at hinputs
      obtain ⟨vs, hvs, hperm⟩ := List.perm_comp_forall₂ (hdeps n hn).symm hinputs
      rw [← hmap] at hvs
      exact ⟨vs, inputs_eq_ok_iff.mpr hvs, (hcombine n hn vs vs' v hperm.symm).mpr hv⟩

end Demand
