import Mathlib.Logic.Basic

/-!
# Computations that make fallible calls in a fixed order

A computation makes the calls of a list one after the other and stops in the first one that
fails. The rules follow the structure of the computation, so that a whole program is known from
the order of its calls.
-/

set_option autoImplicit false

universe u v w

namespace CallSequence

variable {κ : Type u} {σ τ : Type v} {ε : Type w}

/-- The first of the calls that fails stops the computation with something that is `left` by
this call; without one it ends in a `final` state. -/
def Makes (fails : κ → Bool) (left : κ → ε → Prop) (calls : List κ) (final : σ → Prop)
    (r : Except ε σ) : Prop :=
  match calls.find? fails with
  | some call => ∃ e, r = .error e ∧ left call e
  | none => ∃ s, r = .ok s ∧ final s

variable {fails : κ → Bool} {left : κ → ε → Prop} {calls more : List κ} {final : σ → Prop}
  {r : Except ε σ}

theorem Makes.of_ok {s : σ} (h : final s) : Makes fails left [] final (.ok s : Except ε σ) :=
  ⟨s, rfl, h⟩

theorem Makes.single {call : κ} (hok : fails call = false → ∃ s, r = .ok s ∧ final s)
    (hfail : fails call = true → ∃ e, r = .error e ∧ left call e) :
    Makes fails left [call] final r := by
  unfold Makes
  cases h : fails call with
  | false =>
    rw [List.find?_cons_of_neg (by simp [h])]
    exact hok h
  | true =>
    rw [List.find?_cons_of_pos h]
    exact hfail h

theorem Makes.weaken (h : Makes fails left calls final r) {after : σ → Prop}
    (hafter : ∀ s, final s → after s) : Makes fails left calls after r := by
  unfold Makes at h ⊢
  cases hfirst : calls.find? fails with
  | some call =>
    rw [hfirst] at h
    exact h
  | none =>
    rw [hfirst] at h
    obtain ⟨s, hr, hs⟩ := h
    exact ⟨s, hr, hafter s hs⟩

theorem Makes.bind (h : Makes fails left calls final r) {f : σ → Except ε τ} {after : τ → Prop}
    (hf : ∀ s, final s → Makes fails left more after (f s)) :
    Makes fails left (calls ++ more) after (r >>= f) := by
  unfold Makes at h ⊢
  rw [List.find?_append]
  cases hfirst : calls.find? fails with
  | some call =>
    rw [hfirst] at h
    obtain ⟨e, rfl, hleft⟩ := h
    exact ⟨e, rfl, hleft⟩
  | none =>
    rw [hfirst] at h
    obtain ⟨s, rfl, hs⟩ := h
    exact hf s hs

/-- The loop rule, with an invariant for the state before each iteration. -/
theorem Makes.foldlM {f : σ → Nat → Except ε σ} {callsOf : Nat → List κ} (before : Nat → σ → Prop)
    {n : Nat} (hf : ∀ i < n, ∀ s, before i s → Makes fails left (callsOf i) (before (i + 1)) (f s i))
    {s : σ} (hs : before 0 s) :
    Makes fails left ((List.range n).flatMap callsOf) (before n) ((List.range n).foldlM f s) := by
  induction n with
  | zero => exact .of_ok hs
  | succ n ih =>
    rw [List.range_succ, List.flatMap_append, List.foldlM_append]
    refine Makes.bind (ih fun i hi => hf i (Nat.lt_succ_of_lt hi)) ?_
    intro t ht
    have hlast := hf n (Nat.lt_succ_self n) t ht
    simpa only [List.flatMap_cons, List.flatMap_nil, List.append_nil, List.foldlM_cons,
      List.foldlM_nil, bind_pure] using hlast

end CallSequence
