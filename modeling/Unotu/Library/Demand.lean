import Mathlib.Data.List.Forall2
import Mathlib.Logic.Relation
import Mathlib.Data.Set.Finite.Basic
import Mathlib.Order.WellFounded

/-!
# Demand-driven evaluation

To evaluate a node, evaluate its dependencies in order and combine their values; the
first one that raises an error ends the evaluation. There is no memory of visited nodes, so
the evaluation is given a depth and runs out of it when the recursion goes deeper. It
terminates at a node exactly when the demand relation is accessible there.
-/

set_option autoImplicit false

universe u v w

namespace Demand

variable {N : Type u} {V : Type v} {E : Type w}

/-- The values of the dependencies in order, up to the first error; `none` is out of depth. -/
def inputs (ev : N → Option (Except E V)) : List N → Option (Except E (List V))
  | [] => some (.ok [])
  | p :: ps =>
    match ev p with
    | none => none
    | some (.error e) => some (.error e)
    | some (.ok v) =>
      match inputs ev ps with
      | none => none
      | some (.error e) => some (.error e)
      | some (.ok vs) => some (.ok (v :: vs))

def andThen {A B : Type*} (r : Option (Except E A)) (f : A → Except E B) :
    Option (Except E B) :=
  match r with
  | none => none
  | some (.error e) => some (.error e)
  | some (.ok a) => some (f a)

variable (deps : N → List N) (combine : N → List V → Except E V)

def eval : Nat → N → Option (Except E V)
  | 0, _ => none
  | d + 1, n => andThen (inputs (eval d) (deps n)) (combine n)

def Terminates (n : N) : Prop := ∃ d r, eval deps combine d n = some r

def Returns (n : N) : Prop := ∃ d v, eval deps combine d n = some (.ok v)

/-- The evaluation of `n` reaches its dependency `p`: all earlier ones return. -/
def Demands (p n : N) : Prop :=
  ∃ before after, deps n = before ++ p :: after ∧ ∀ q ∈ before, Returns deps combine q

/-! ## Depth -/

section Inputs

variable {ev ev' : N → Option (Except E V)}

theorem inputs_mono (h : ∀ p r, ev p = some r → ev' p = some r) {ps : List N}
    {r : Except E (List V)} (hr : inputs ev ps = some r) : inputs ev' ps = some r := by
  induction ps generalizing r with
  | nil => exact hr
  | cons p ps ih =>
    cases hp : ev p with
    | none => simp [inputs, hp] at hr
    | some a =>
      cases a with
      | error e => simpa [inputs, hp, h p _ hp] using hr
      | ok v =>
        cases hps : inputs ev ps with
        | none => simp [inputs, hp, hps] at hr
        | some a => simpa [inputs, hp, hps, h p _ hp, ih hps] using hr

theorem inputs_eq_ok_iff {ps : List N} {vs : List V} :
    inputs ev ps = some (.ok vs) ↔ List.Forall₂ (fun p v => ev p = some (.ok v)) ps vs := by
  induction ps generalizing vs with
  | nil =>
    rw [List.forall₂_nil_left_iff, inputs]
    constructor
    · intro h
      cases h
      rfl
    · intro h
      rw [h]
  | cons p ps ih =>
    rw [List.forall₂_cons_left_iff]
    constructor
    · intro h
      simp only [inputs] at h
      split at h
      · cases h
      · cases h
      · rename_i v hp
        split at h
        · cases h
        · cases h
        · rename_i vs' hps
          cases h
          exact ⟨v, vs', hp, ih.mp hps, rfl⟩
    · intro h
      obtain ⟨v, vs', hp, hps, rfl⟩ := h
      simp only [inputs, hp, ih.mpr hps]

theorem inputs_length {ps : List N} {vs : List V} (h : inputs ev ps = some (.ok vs)) :
    vs.length = ps.length :=
  (inputs_eq_ok_iff.mp h).length_eq.symm

theorem inputs_eq_singleton {ps : List N} {v : V} (h : inputs ev ps = some (.ok [v])) :
    ∃ p, ps = [p] ∧ ev p = some (.ok v) := by
  obtain ⟨p, ps', hp, hps, rfl⟩ := List.forall₂_cons_right_iff.mp (inputs_eq_ok_iff.mp h)
  rw [List.forall₂_nil_right_iff] at hps
  exact ⟨p, by rw [hps], hp⟩

theorem exists_error_of_inputs {ps : List N} {e : E} (h : inputs ev ps = some (.error e)) :
    ∃ p ∈ ps, ev p = some (.error e) := by
  induction ps with
  | nil => cases h
  | cons p ps ih =>
    simp only [inputs] at h
    split at h
    · cases h
    · rename_i hp
      cases h
      exact ⟨p, List.mem_cons_self, hp⟩
    · split at h
      · cases h
      · rename_i hps
        cases h
        obtain ⟨q, hq, he⟩ := ih hps
        exact ⟨q, List.mem_cons_of_mem _ hq, he⟩
      · cases h

theorem eval_of_inputs {ps : List N} {r : Except E (List V)} (hr : inputs ev ps = some r)
    {before : List N} {p : N} {after : List N} (hps : ps = before ++ p :: after)
    (hbefore : ∀ q ∈ before, ∀ e, ev q ≠ some (.error e)) : ∃ r, ev p = some r := by
  induction before generalizing ps r with
  | nil =>
    subst ps
    cases hp : ev p with
    | none => simp [inputs, hp] at hr
    | some a => exact ⟨a, rfl⟩
  | cons q before ih =>
    subst ps
    cases hq : ev q with
    | none => simp [inputs, hq] at hr
    | some a =>
      cases a with
      | error e => exact absurd hq (hbefore q List.mem_cons_self e)
      | ok v =>
        cases hrest : inputs ev (before ++ p :: after) with
        | none => simp [inputs, hq, hrest] at hr
        | some s => exact ih hrest rfl fun q' hq' => hbefore q' (List.mem_cons_of_mem _ hq')

theorem andThen_eq_ok_iff {A B : Type*} {r : Option (Except E A)} {f : A → Except E B} {b : B} :
    andThen r f = some (.ok b) ↔ ∃ a, r = some (.ok a) ∧ f a = .ok b := by
  unfold andThen
  constructor
  · intro h
    split at h
    · cases h
    · cases h
    · rename_i a
      exact ⟨a, rfl, Option.some.inj h⟩
  · intro h
    obtain ⟨a, rfl, hf⟩ := h
    exact congrArg some hf

end Inputs

variable {deps combine}

theorem eval_succ {d : Nat} {n : N} {r : Except E V} (h : eval deps combine d n = some r) :
    eval deps combine (d + 1) n = some r := by
  induction d generalizing n r with
  | zero => simp [eval] at h
  | succ d ih =>
    rw [eval] at h ⊢
    cases hi : inputs (eval deps combine d) (deps n) with
    | none => simp [hi, andThen] at h
    | some a =>
      rw [inputs_mono (fun p r hp => ih hp) hi]
      simpa [hi] using h

theorem eval_mono {d d' : Nat} (hd : d ≤ d') {n : N} {r : Except E V}
    (h : eval deps combine d n = some r) : eval deps combine d' n = some r := by
  induction hd with
  | refl => exact h
  | step _ ih => exact eval_succ ih

theorem eval_unique {d d' : Nat} {n : N} {r r' : Except E V}
    (h : eval deps combine d n = some r) (h' : eval deps combine d' n = some r') : r = r' := by
  have hmax := eval_mono (Nat.le_max_left d d') h
  have hmax' := eval_mono (Nat.le_max_right d d') h'
  exact Option.some.inj (hmax.symm.trans hmax')

theorem Returns.ne_error {n : N} (h : Returns deps combine n) (d : Nat) (e : E) :
    eval deps combine d n ≠ some (.error e) := by
  obtain ⟨d', v, hv⟩ := h
  intro he
  cases eval_unique hv he

/-- Every error comes from combining the inputs of a node, one that the evaluation reaches. -/
theorem exists_combine_error {Q : N → Prop} (hQ : ∀ n, Q n → ∀ p ∈ deps n, Q p) {d : Nat} {n : N}
    (hn : Q n) {e : E} (h : eval deps combine d n = some (.error e)) :
    ∃ m d' vs, Q m ∧ inputs (eval deps combine d') (deps m) = some (.ok vs) ∧
      combine m vs = .error e := by
  induction d generalizing n with
  | zero => cases h
  | succ d ih =>
    rw [eval] at h
    cases hi : inputs (eval deps combine d) (deps n) with
    | none => simp [hi, andThen] at h
    | some r =>
      cases r with
      | error e' =>
        obtain ⟨p, hmem, hp⟩ := exists_error_of_inputs hi
        simp only [hi, andThen, Option.some.injEq, Except.error.injEq] at h
        exact ih (hQ n hn p hmem) (h ▸ hp)
      | ok vs =>
        simp only [hi, andThen, Option.some.injEq] at h
        exact ⟨n, d, vs, hn, hi, h⟩

/-! ## Termination -/

theorem acc_of_eval {d : Nat} {n : N} {r : Except E V} (h : eval deps combine d n = some r) :
    Acc (Demands deps combine) n := by
  induction d generalizing n r with
  | zero => simp [eval] at h
  | succ d ih =>
    refine Acc.intro n ?_
    rintro p ⟨before, after, hdeps, hbefore⟩
    rw [eval] at h
    cases hi : inputs (eval deps combine d) (deps n) with
    | none => simp [hi, andThen] at h
    | some a =>
      obtain ⟨r', hr'⟩ := eval_of_inputs hi hdeps fun q hq e => (hbefore q hq).ne_error d e
      exact ih hr'

theorem exists_depth_inputs {ps : List N}
    (h : ∀ before p after, ps = before ++ p :: after →
      (∀ q ∈ before, Returns deps combine q) → Terminates deps combine p) :
    ∃ d r, inputs (eval deps combine d) ps = some r := by
  induction ps with
  | nil => exact ⟨0, _, rfl⟩
  | cons p ps ih =>
    obtain ⟨d, r, hr⟩ := h [] p ps rfl (by simp)
    cases r with
    | error e => exact ⟨d, .error e, by simp [inputs, hr]⟩
    | ok v =>
      have hrest : ∃ d r, inputs (eval deps combine d) ps = some r := by
        apply ih
        intro before q after hps hbefore
        apply h (p :: before) q after
        · rw [hps, List.cons_append]
        · intro q' hq'
          rcases List.mem_cons.mp hq' with rfl | hq'
          · exact ⟨d, v, hr⟩
          · exact hbefore q' hq'
      obtain ⟨d', r', hr'⟩ := hrest
      have hp := eval_mono (Nat.le_max_left d d') hr
      have hps := inputs_mono (fun q s hq => eval_mono (Nat.le_max_right d d') hq) hr'
      cases r' with
      | error e => exact ⟨max d d', .error e, by simp [inputs, hp, hps]⟩
      | ok vs => exact ⟨max d d', .ok (v :: vs), by simp [inputs, hp, hps]⟩

theorem terminates_of_acc {n : N} (h : Acc (Demands deps combine) n) :
    Terminates deps combine n := by
  induction h with
  | intro n _ ih =>
    have hinputs : ∃ d r, inputs (eval deps combine d) (deps n) = some r := by
      apply exists_depth_inputs
      intro before p after hdeps hbefore
      exact ih p ⟨before, after, hdeps, hbefore⟩
    obtain ⟨d, r, hr⟩ := hinputs
    cases r with
    | error e => exact ⟨d + 1, .error e, by simp [eval, andThen, hr]⟩
    | ok vs => exact ⟨d + 1, combine n vs, by simp [eval, andThen, hr]⟩

theorem terminates_iff_acc {n : N} :
    Terminates deps combine n ↔ Acc (Demands deps combine) n := by
  constructor
  · rintro ⟨d, r, hr⟩
    exact acc_of_eval hr
  · exact terminates_of_acc

/-! ## Accessibility and cycles -/

open Relation

variable {R : N → N → Prop}

theorem not_transGen_of_acc {n : N} (h : Acc R n) : ¬ TransGen R n n := by
  have hacc : Acc (TransGen R) n := h.transGen
  clear h
  induction hacc with
  | intro n _ ih =>
    intro hcycle
    exact ih n hcycle hcycle

theorem acc_of_reflTransGen {m n : N} (hmn : ReflTransGen R m n) (h : Acc R n) : Acc R m := by
  induction hmn using ReflTransGen.head_induction_on with
  | refl => exact h
  | head hstep _ ih => exact ih.inv hstep

/-- Where only finitely many nodes are reachable, accessibility is the absence of cycles. -/
theorem acc_iff_no_cycle {n : N} (hfin : {m | ReflTransGen R m n}.Finite) :
    Acc R n ↔ ∀ m, ReflTransGen R m n → ¬ TransGen R m m := by
  constructor
  · intro h m hm
    exact not_transGen_of_acc (acc_of_reflTransGen hm h)
  · intro hcycle
    have hwf : WellFounded fun a b : {m // ReflTransGen R m n} => TransGen R a.1 b.1 := by
      have : Finite {m // ReflTransGen R m n} := hfin
      have : IsTrans {m // ReflTransGen R m n} fun a b => TransGen R a.1 b.1 :=
        ⟨fun _ _ _ => TransGen.trans⟩
      have : Std.Irrefl fun a b : {m // ReflTransGen R m n} => TransGen R a.1 b.1 :=
        ⟨fun a ha => hcycle a.1 a.2 ha⟩
      exact Finite.wellFounded_of_trans_of_irrefl _
    have hacc : ∀ a : {m // ReflTransGen R m n}, Acc R a.1 := by
      intro a
      induction a using hwf.induction with
      | _ a ih =>
        refine Acc.intro a.1 ?_
        intro b hb
        exact ih ⟨b, ReflTransGen.head hb a.2⟩ (TransGen.single hb)
    exact hacc ⟨n, ReflTransGen.refl⟩

end Demand
