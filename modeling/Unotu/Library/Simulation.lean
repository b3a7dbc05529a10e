import Unotu.Library.Runs

/-!
# Machines that answer, and what they are meant to answer

A machine may fault and gives an answer at each step; a specification never faults and gives
the meaning of an answer. When one step of the machine follows the specification, the
transcript of a whole run means what the specification says.
-/

set_option autoImplicit false

universe u v w x y z

namespace Simulation

variable {σ : Type u} {α : Type v} {ι : Type w} {ρ : Type x} {ω : Type y} {ε : Type z}

/-- The last state of a run of the machine and its answers in order. -/
def transcript (step : σ → ι → Except ε (σ × ρ)) : σ → List ι → Except ε (σ × List ρ)
  | s, [] => .ok (s, [])
  | s, i :: is =>
    match step s i with
    | .ok (t, r) => (transcript step t is).map fun (u, rs) => (u, r :: rs)
    | .error e => .error e

/-- The same for a specification. -/
def meant (spec : α → ι → α × ω) : α → List ι → α × List ω
  | a, [] => (a, [])
  | a, i :: is =>
    let (b, o) := spec a i
    let (c, os) := meant spec b is
    (c, o :: os)

section Steps

variable (step : σ → ι → Except ε (σ × ρ)) (spec : α → ι → α × ω)

theorem transcript_cons {s t : σ} {i : ι} {r : ρ} (h : step s i = .ok (t, r)) {is : List ι}
    {u : σ} {rs : List ρ} (hrest : transcript step t is = .ok (u, rs)) :
    transcript step s (i :: is) = .ok (u, r :: rs) := by
  simp [transcript, h, hrest, Except.map]

/-- The condition `C` holds of each input in the state of the machine before it. -/
def Meets (C : σ → ι → Prop) : σ → List ι → Prop
  | _, [] => True
  | s, i :: is => C s i ∧ match step s i with
    | .ok (t, _) => Meets C t is
    | .error _ => True

/-- A machine that follows its specification one step at a time follows it along every run. -/
theorem transcript_meant {R : σ → α → Prop} {C : σ → ι → Prop} {denote : ρ → ω}
    (hstep : ∀ s a i, R s a → C s i →
      ∃ t r, step s i = .ok (t, r) ∧ R t (spec a i).1 ∧ denote r = (spec a i).2)
    {s : σ} {a : α} (h : R s a) {is : List ι} (hC : Meets step C s is) :
    ∃ t rs, transcript step s is = .ok (t, rs) ∧ R t (meant spec a is).1 ∧
      rs.map denote = (meant spec a is).2 := by
  induction is generalizing s a with
  | nil => exact ⟨s, [], rfl, h, rfl⟩
  | cons i is ih =>
    obtain ⟨hi, hrest⟩ := hC
    obtain ⟨t, r, ht, hR, hr⟩ := hstep s a i h hi
    rw [ht] at hrest
    obtain ⟨u, rs, hu, hRu, hrs⟩ := ih hR hrest
    refine ⟨u, r :: rs, transcript_cons step ht hu, hRu, ?_⟩
    rw [List.map_cons, hr, hrs]
    rfl

end Steps

end Simulation
