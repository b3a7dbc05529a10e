import Mathlib.Algebra.Group.Basic

/-!
# A view that can be held by one of its points

A view shows a plane from an origin at some zoom, and a cursor is over it. Someone may hold the
point that is under the cursor: the view then follows, so that this point is under the cursor
again. `offset` is how far from the origin the cursor is at a zoom.
-/

set_option autoImplicit false

universe u v w x

structure Viewport (V : Type u) (Z : Type v) where
  zoom : Z
  origin : V
  held : Option V

namespace Viewport

inductive Motion (A : Type x) where
  | tick
  | rezoom (Amount : A)
  | reset
  | grab
  | release

section Motions

variable {V : Type u} {Z : Type v} {S : Type w} {A : Type x} [AddCommGroup V]
  (offset : S → Z → V) (rezoom : Z → A → Z)

/-- The point under the cursor. -/
def under (view : Viewport V Z) (s : S) : V := view.origin + offset s view.zoom

/-- The view from where `p` is under the cursor. -/
def bring (view : Viewport V Z) (s : S) (p : V) : Viewport V Z :=
  { view with origin := p - offset s view.zoom }

def follow (view : Viewport V Z) (s : S) : Viewport V Z :=
  match view.held with
  | none => view
  | some p => view.bring offset s p

/-- A view that nobody holds is zoomed around the cursor. -/
def step (view : Viewport V Z) (s : S) : Motion A → Viewport V Z
  | .tick => view.follow offset s
  | .rezoom Amount =>
    match view.held with
    | none => { view with zoom := rezoom view.zoom Amount }.bring offset s (view.under offset s)
    | some _ => { view with zoom := rezoom view.zoom Amount }
  | .reset => { view with origin := 0 }
  | .grab => { view with held := some (view.under offset s) }
  | .release => { view.follow offset s with held := none }

def run (view : Viewport V Z) (motions : List (S × Motion A)) : Viewport V Z :=
  motions.foldl (fun view motion => view.step offset rezoom motion.1 motion.2) view

/-- The motions in between a `grab` and a `release`. -/
def Motion.Between : Motion A → Prop
  | .tick | .rezoom _ | .reset => True
  | .grab | .release => False

/-- The zoom after some motions. -/
def zoomed (z : Z) : List (S × Motion A) → Z
  | [] => z
  | (_, .rezoom Amount) :: motions => zoomed (rezoom z Amount) motions
  | _ :: motions => zoomed z motions

theorem run_held {view : Viewport V Z} {p : V} (h : view.held = some p)
    {motions : List (S × Motion A)} (hbetween : ∀ motion ∈ motions, motion.2.Between) :
    (view.run offset rezoom motions).held = some p ∧
      (view.run offset rezoom motions).zoom = zoomed rezoom view.zoom motions := by
  induction motions generalizing view with
  | nil => exact ⟨h, rfl⟩
  | cons motion motions ih =>
    obtain ⟨s, motion⟩ := motion
    have hfirst := hbetween _ List.mem_cons_self
    have hrest : ∀ motion ∈ motions, motion.2.Between := fun motion hmotion =>
      hbetween motion (List.mem_cons_of_mem _ hmotion)
    have hstep : (view.step offset rezoom s motion).held = some p ∧
        zoomed rezoom (view.step offset rezoom s motion).zoom motions =
          zoomed rezoom view.zoom ((s, motion) :: motions) := by
      cases motion with
      | tick => simp only [step, follow, h, bring, zoomed, and_self]
      | rezoom Amount => simp only [step, h, zoomed, and_self]
      | reset => exact ⟨h, rfl⟩
      | grab => exact absurd hfirst id
      | release => exact absurd hfirst id
    rw [← hstep.2]
    exact ih hstep.1 hrest

theorem step_release {view : Viewport V Z} {p : V} (h : view.held = some p) (s : S) :
    view.step offset rezoom s (.release : Motion A) =
      ⟨view.zoom, p - offset s view.zoom, none⟩ := by
  simp only [step, follow, h, bring]

/-- However the view was moved, zoomed and reset while it was held, it is let go where the point
that was grabbed is under the cursor. -/
theorem run_session (view : Viewport V Z) (start stop : S) {motions : List (S × Motion A)}
    (hbetween : ∀ motion ∈ motions, motion.2.Between) :
    view.run offset rezoom ((start, .grab) :: motions ++ [(stop, .release)]) =
      ⟨zoomed rezoom view.zoom motions,
        view.under offset start - offset stop (zoomed rezoom view.zoom motions), none⟩ := by
  have hgrab : (view.step offset rezoom start (.grab : Motion A)).held =
      some (view.under offset start) := rfl
  obtain ⟨hheld, hzoom⟩ := run_held offset rezoom hgrab hbetween
  have hrun : view.run offset rezoom ((start, .grab) :: motions ++ [(stop, .release)]) =
      ((view.step offset rezoom start .grab).run offset rezoom motions).step offset rezoom stop
        .release := by
    simp only [run, List.foldl_append, List.foldl_cons, List.foldl_nil]
  rw [hrun, step_release offset rezoom hheld, hzoom]
  rfl

end Motions

end Viewport
