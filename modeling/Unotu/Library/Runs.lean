import Mathlib.Logic.Basic

/-!
# Runs of a deterministic system that may fault

`step s i` is the state after input `i`, or a fault that ends the run. Invariants
are proved for one step and lifted here to whole runs. `Along` speaks of every state
a run passes through and `EveryStep` of every input together with the state before it.
-/

set_option autoImplicit false

universe u v w

namespace Runs

variable {σ : Type u} {ι : Type v} {ε : Type w} (step : σ → ι → Except ε σ)

def run : σ → List ι → Except ε σ
  | s, [] => .ok s
  | s, i :: is =>
    match step s i with
    | .ok t => run t is
    | .error e => .error e

@[simp] theorem run_nil (s : σ) : run step s [] = .ok s := rfl

theorem run_cons_ok {s t : σ} {i : ι} (h : step s i = .ok t) (is : List ι) :
    run step s (i :: is) = run step t is := by
  simp [run, h]

theorem run_cons_error {s : σ} {i : ι} {e : ε} (h : step s i = .error e) (is : List ι) :
    run step s (i :: is) = .error e := by
  simp [run, h]

theorem run_append {s t : σ} {is : List ι} (h : run step s is = .ok t) (js : List ι) :
    run step s (is ++ js) = run step t js := by
  induction is generalizing s with
  | nil =>
    cases h
    rfl
  | cons i is ih =>
    cases hs : step s i with
    | error e => simp [run_cons_error step hs] at h
    | ok r =>
      rw [run_cons_ok step hs] at h
      rw [List.cons_append, run_cons_ok step hs, ih h]

/-- A property that every step keeps, without faulting, holds after every run. -/
theorem run_invariant {P : σ → Prop}
    (hstep : ∀ s i, P s → ∃ t, step s i = .ok t ∧ P t) {s : σ} (hs : P s) (is : List ι) :
    ∃ t, run step s is = .ok t ∧ P t := by
  induction is generalizing s with
  | nil => exact ⟨s, rfl, hs⟩
  | cons i is ih =>
    obtain ⟨r, hr, hP⟩ := hstep s i hs
    rw [run_cons_ok step hr]
    exact ih hP

theorem run_preserves {P : σ → Prop}
    (hstep : ∀ s i t, P s → step s i = .ok t → P t) {s t : σ} (hs : P s) {is : List ι}
    (h : run step s is = .ok t) : P t := by
  induction is generalizing s with
  | nil =>
    cases h
    exact hs
  | cons i is ih =>
    cases hr : step s i with
    | error e => simp [run_cons_error step hr] at h
    | ok r =>
      rw [run_cons_ok step hr] at h
      exact ih (hstep s i r hs hr) h

/-- Every state that the run passes through has the property. -/
def Along (P : σ → Prop) (s : σ) (is : List ι) : Prop :=
  ∀ js t, js <+: is → run step s js = .ok t → P t

/-- Every input of the run is given in a state where the condition allows it. -/
def EveryStep (C : σ → ι → Prop) (s : σ) (is : List ι) : Prop :=
  ∀ js i t, js ++ [i] <+: is → run step s js = .ok t → C t i

@[simp] theorem along_nil (P : σ → Prop) (s : σ) : Along step P s [] ↔ P s := by
  constructor
  · intro h
    exact h [] s List.prefix_rfl rfl
  · intro h js t hjs ht
    obtain rfl := List.prefix_nil.mp hjs
    cases ht
    exact h

theorem along_cons {P : σ → Prop} {s t : σ} {i : ι} (hi : step s i = .ok t) (is : List ι) :
    Along step P s (i :: is) ↔ P s ∧ Along step P t is := by
  constructor
  · intro h
    refine ⟨h [] s List.nil_prefix rfl, ?_⟩
    intro js r hjs hr
    exact h (i :: js) r (List.prefix_cons_inj i |>.mpr hjs) (by rwa [run_cons_ok step hi])
  · rintro ⟨hs, h⟩ js r hjs hr
    cases js with
    | nil =>
      cases hr
      exact hs
    | cons j js =>
      obtain ⟨rfl, htail⟩ := List.cons_prefix_cons.mp hjs
      rw [run_cons_ok step hi] at hr
      exact h js r htail hr

theorem along_cons_error {P : σ → Prop} {s : σ} {i : ι} {e : ε} (hi : step s i = .error e)
    (is : List ι) : Along step P s (i :: is) ↔ P s := by
  constructor
  · intro h
    exact h [] s List.nil_prefix rfl
  · intro hs js r hjs hr
    cases js with
    | nil =>
      cases hr
      exact hs
    | cons j js =>
      obtain ⟨rfl, -⟩ := List.cons_prefix_cons.mp hjs
      rw [run_cons_error step hi] at hr
      cases hr

@[simp] theorem everyStep_nil (C : σ → ι → Prop) (s : σ) : EveryStep step C s [] := by
  intro js i t h
  simp at h

theorem everyStep_cons {C : σ → ι → Prop} {s t : σ} {i : ι} (hi : step s i = .ok t)
    (is : List ι) : EveryStep step C s (i :: is) ↔ C s i ∧ EveryStep step C t is := by
  constructor
  · intro h
    refine ⟨h [] i s (by simp) rfl, ?_⟩
    intro js j r hjs hr
    exact h (i :: js) j r (by simpa using hjs) (by rwa [run_cons_ok step hi])
  · rintro ⟨hs, h⟩ js j r hjs hr
    cases js with
    | nil =>
      cases hr
      obtain ⟨rfl, -⟩ := List.cons_prefix_cons.mp hjs
      exact hs
    | cons k js =>
      obtain ⟨rfl, htail⟩ := List.cons_prefix_cons.mp hjs
      rw [run_cons_ok step hi] at hr
      exact h js j r htail hr

theorem everyStep_cons_error {C : σ → ι → Prop} {s : σ} {i : ι} {e : ε} (hi : step s i = .error e)
    (is : List ι) : EveryStep step C s (i :: is) ↔ C s i := by
  constructor
  · intro h
    exact h [] i s (by simp) rfl
  · intro hs js j r hjs hr
    cases js with
    | nil =>
      cases hr
      obtain ⟨rfl, -⟩ := List.cons_prefix_cons.mp hjs
      exact hs
    | cons k js =>
      obtain ⟨rfl, -⟩ := List.cons_prefix_cons.mp hjs
      rw [run_cons_error step hi] at hr
      cases hr

theorem EveryStep.of_append {C : σ → ι → Prop} {s : σ} {is js : List ι}
    (h : EveryStep step C s (is ++ js)) : EveryStep step C s is :=
  fun ks i t hks ht => h ks i t (hks.trans (List.prefix_append is js)) ht

theorem everyStep_append {C : σ → ι → Prop} {s t : σ} {is : List ι} (h : run step s is = .ok t)
    (js : List ι) :
    EveryStep step C s (is ++ js) ↔ EveryStep step C s is ∧ EveryStep step C t js := by
  induction is generalizing s with
  | nil =>
    cases h
    simp
  | cons i is ih =>
    cases hi : step s i with
    | error e => simp [run_cons_error step hi] at h
    | ok r =>
      rw [run_cons_ok step hi] at h
      rw [List.cons_append, everyStep_cons step hi, everyStep_cons step hi, ih h, and_assoc]

theorem everyStep_congr {C D : σ → ι → Prop} (h : ∀ s i, C s i ↔ D s i) (s : σ) (is : List ι) :
    EveryStep step C s is ↔ EveryStep step D s is := by
  simp only [EveryStep, h]

theorem everyStep_of_forall {C : σ → ι → Prop} {is : List ι} (h : ∀ i ∈ is, ∀ s, C s i) (s : σ) :
    EveryStep step C s is := by
  intro js i t hjs _
  exact h i (hjs.subset (by simp)) t

/-- When one step keeps `P` exactly under the condition `C`, a whole run keeps `P`
exactly when each of its steps meets `C`; a fault meets it. The invariant `I` is what all
steps keep. -/
theorem along_iff_everyStep_of_faults {I P : σ → Prop} {C : σ → ι → Prop}
    (hstep : ∀ s i t, I s → step s i = .ok t → I t ∧ (P s → (P t ↔ C s i)))
    (hfault : ∀ s i e, I s → step s i = .error e → C s i)
    {s : σ} (hI : I s) (hP : P s) (is : List ι) :
    Along step P s is ↔ EveryStep step C s is := by
  induction is generalizing s with
  | nil => simpa using hP
  | cons i is ih =>
    cases ht : step s i with
    | error e =>
      rw [along_cons_error step ht, everyStep_cons_error step ht]
      exact iff_of_true hP (hfault s i e hI ht)
    | ok t =>
      obtain ⟨hIt, hiff⟩ := hstep s i t hI ht
      rw [along_cons step ht, everyStep_cons step ht]
      constructor
      · rintro ⟨-, h⟩
        have hPt : P t := h [] t List.nil_prefix rfl
        exact ⟨(hiff hP).mp hPt, (ih hIt hPt).mp h⟩
      · rintro ⟨hC, h⟩
        exact ⟨hP, (ih hIt ((hiff hP).mpr hC)).mpr h⟩

theorem along_iff_everyStep {I P : σ → Prop} {C : σ → ι → Prop}
    (hstep : ∀ s i, I s → ∃ t, step s i = .ok t ∧ I t ∧ (P s → (P t ↔ C s i)))
    {s : σ} (hI : I s) (hP : P s) (is : List ι) :
    Along step P s is ↔ EveryStep step C s is := by
  refine along_iff_everyStep_of_faults step ?_ ?_ hI hP is
  · intro s i t hIs ht
    obtain ⟨t', ht', hspec⟩ := hstep s i hIs
    cases ht.symm.trans ht'
    exact hspec
  · intro s i e hIs ht
    obtain ⟨t', ht', -⟩ := hstep s i hIs
    cases ht.symm.trans ht'

/-- The same when a step that breaks `P` may break the invariant as well: what meets `C` keeps
`I`, which implies `P`, and what does not breaks `P` at once. -/
theorem along_iff_everyStep_of_inv {I P : σ → Prop} {C : σ → ι → Prop} (himp : ∀ s, I s → P s)
    (hstep : ∀ s i, I s → ∃ t, step s i = .ok t ∧ (C s i → I t) ∧ (P t → C s i))
    {s : σ} (hs : I s) (is : List ι) : Along step P s is ↔ EveryStep step C s is := by
  induction is generalizing s with
  | nil => simpa using himp s hs
  | cons i is ih =>
    obtain ⟨t, ht, hkeep, hbreak⟩ := hstep s i hs
    rw [along_cons step ht, everyStep_cons step ht]
    constructor
    · rintro ⟨-, h⟩
      have hC : C s i := hbreak (h [] t List.nil_prefix rfl)
      exact ⟨hC, (ih (hkeep hC)).mp h⟩
    · rintro ⟨hC, h⟩
      exact ⟨himp s hs, (ih (hkeep hC)).mpr h⟩

/-- A run whose steps all meet the condition does not fault. -/
theorem run_ok_of_everyStep {I : σ → Prop} {C : σ → ι → Prop}
    (hstep : ∀ s i, I s → C s i → ∃ t, step s i = .ok t ∧ I t) {s : σ} (hs : I s) {is : List ι}
    (h : EveryStep step C s is) : ∃ t, run step s is = .ok t ∧ I t := by
  induction is generalizing s with
  | nil => exact ⟨s, rfl, hs⟩
  | cons i is ih =>
    have hC : C s i := h [] i s (by simp) rfl
    obtain ⟨t, ht, hI⟩ := hstep s i hs hC
    rw [run_cons_ok step ht]
    exact ih hI ((everyStep_cons step ht is).mp h).2

/-- What every step that meets the condition keeps holds after a run of such steps. -/
theorem run_of_everyStep {I : σ → Prop} {C : σ → ι → Prop}
    (hstep : ∀ s i t, I s → C s i → step s i = .ok t → I t) {s t : σ} (hs : I s) {is : List ι}
    (h : EveryStep step C s is) (hrun : run step s is = .ok t) : I t := by
  induction is generalizing s with
  | nil =>
    cases hrun
    exact hs
  | cons i is ih =>
    have hC : C s i := h [] i s (by simp) rfl
    cases hi : step s i with
    | error e => simp [run_cons_error step hi] at hrun
    | ok r =>
      rw [run_cons_ok step hi] at hrun
      exact ih (hstep s i r hs hC hi) ((everyStep_cons step hi is).mp h).2 hrun

theorem along_of_everyStep {I : σ → Prop} {C : σ → ι → Prop}
    (hstep : ∀ s i t, I s → C s i → step s i = .ok t → I t) {s : σ} (hs : I s) {is : List ι}
    (h : EveryStep step C s is) : Along step I s is := by
  intro js t hjs hrun
  refine run_of_everyStep step hstep hs ?_ hrun
  intro ks i r hks hr
  exact h ks i r (hks.trans hjs) hr

/-- Two conditions that agree wherever the invariant `I` holds agree on runs, when a step
that meets them keeps `I`. -/
theorem everyStep_iff {I : σ → Prop} {K C : σ → ι → Prop} (hiff : ∀ s i, I s → (K s i ↔ C s i))
    (hkeep : ∀ s i t, I s → C s i → step s i = .ok t → I t) {s : σ} (hs : I s) (is : List ι) :
    EveryStep step K s is ↔ EveryStep step C s is := by
  induction is generalizing s with
  | nil => simp
  | cons i is ih =>
    cases hi : step s i with
    | error e => rw [everyStep_cons_error step hi, everyStep_cons_error step hi, hiff s i hs]
    | ok t =>
      rw [everyStep_cons step hi, everyStep_cons step hi, hiff s i hs]
      exact and_congr_right fun hC => ih (hkeep s i t hs hC hi)

end Runs
