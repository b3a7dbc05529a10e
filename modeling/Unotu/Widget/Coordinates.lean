import Unotu.Widget.Dragging
import Mathlib.Tactic.FieldSimp
import Mathlib.Tactic.Linarith

/-!
# Between the screen and the graph

`ToRealPosition` subtracts the origin of the view before it scales, and `ToImaginaryPosition`
subtracts it again after it has scaled back. One after the other they shift a position by
twice the origin.
-/

set_option autoImplicit false

namespace Unotu.Widget

open Unotu.Filter

@[simp] theorem div_x (p q : DPoint) : (p / q).x = p.x / q.x := rfl

@[simp] theorem div_y (p q : DPoint) : (p / q).y = p.y / q.y := rfl

namespace View

/-- The view after some events, each with the window and the mouse of its moment. -/
def after (view : View) (events : List (Screen × ViewEvent)) : View :=
  events.foldl (fun view event => view.step event.1 event.2) view

/-- The two conversions are inverse to each other. -/
structure RoundTrip (view : View) (screen : Screen) : Prop where
  graph : ∀ p, view.toImaginaryPosition screen (view.toRealPosition screen p) = p
  screen : ∀ q, view.toRealPosition screen (view.toImaginaryPosition screen q) = q

def ZoomBounded (view : View) : Prop :=
  minimumViewzone ≤ view.viewzone ∧ view.viewzone ≤ maximumViewzone

/-! ## The zoom of a reachable view -/

theorem clampViewzone_bounded (r : ℚ) :
    minimumViewzone ≤ clampViewzone r ∧ clampViewzone r ≤ maximumViewzone := by
  constructor
  · exact le_max_left _ _
  · apply max_le
    · norm_num [minimumViewzone, maximumViewzone]
    · exact min_le_right _ _

theorem stopDragging_viewzone (view : View) (screen : Screen) :
    (view.stopDragging screen).viewzone = view.viewzone := by
  unfold stopDragging
  split
  · rfl
  · rfl

theorem ZoomBounded.step {view : View} (h : view.ZoomBounded) (screen : Screen)
    (event : ViewEvent) : (view.step screen event).ZoomBounded := by
  cases event with
  | onTick =>
    simp only [View.step]
    split
    · exact h
    · exact h
  | zoomBy Amount =>
    have hzoom : (view.step screen (.zoomBy Amount)).viewzone =
        clampViewzone (view.viewzone - Amount) := by
      simp only [View.step, zoomBy]
      split
      · rfl
      · rw [stopDragging_viewzone]
    rw [ZoomBounded, hzoom]
    exact clampViewzone_bounded _
  | home => exact h
  | startDragging => exact h
  | stopDragging =>
    rw [ZoomBounded, View.step, stopDragging_viewzone]
    exact h

theorem ZoomBounded.after {view : View} (h : view.ZoomBounded)
    (events : List (Screen × ViewEvent)) : (view.after events).ZoomBounded := by
  induction events generalizing view with
  | nil => exact h
  | cons event events ih => exact ih (h.step event.1 event.2)

theorem zoomBounded_default : ({} : View).ZoomBounded := by
  norm_num [ZoomBounded, minimumViewzone, maximumViewzone]

theorem ZoomBounded.ne_zero {view : View} (h : view.ZoomBounded) : view.viewzone ≠ 0 := by
  have hmin := h.1
  intro hzero
  rw [hzero] at hmin
  norm_num [minimumViewzone] at hmin

/-! ## The conversions -/

theorem ratio_ne_zero {screen : Screen} (hw : 0 < screen.width) (hh : 0 < screen.height) :
    screen.ratio.x ≠ 0 ∧ screen.ratio.y ≠ 0 := by
  have hw' : (screen.width : ℚ) ≠ 0 := by exact_mod_cast hw.ne'
  have hh' : (screen.height : ℚ) ≠ 0 := by exact_mod_cast hh.ne'
  constructor
  · exact div_ne_zero hw' (by norm_num [pixelsPerGraphUnit])
  · exact div_ne_zero hh' (by norm_num [pixelsPerGraphUnit])

/-- Back in the graph, the origin has been subtracted twice. -/
theorem toImaginaryPosition_toRealPosition {view : View} {screen : Screen}
    (hzoom : view.viewzone ≠ 0) (hx : screen.ratio.x ≠ 0) (hy : screen.ratio.y ≠ 0) (p : DPoint) :
    view.toImaginaryPosition screen (view.toRealPosition screen p) =
      p - (view.viewOrigin + view.viewOrigin) := by
  apply DPoint.ext
  · simp only [toImaginaryPosition, toRealPosition, sub_x, mul_x, div_x, add_x]
    field_simp
    ring
  · simp only [toImaginaryPosition, toRealPosition, sub_y, mul_y, div_y, add_y]
    field_simp
    ring

theorem toRealPosition_toImaginaryPosition {view : View} {screen : Screen}
    (hzoom : view.viewzone ≠ 0) (hx : screen.ratio.x ≠ 0) (hy : screen.ratio.y ≠ 0) (q : DPoint) :
    view.toRealPosition screen (view.toImaginaryPosition screen q) =
      q - (view.viewOrigin + view.viewOrigin) / screen.ratio / (view.viewzone : DPoint) := by
  apply DPoint.ext
  · simp only [toImaginaryPosition, toRealPosition, sub_x, mul_x, div_x, add_x]
    field_simp
    ring
  · simp only [toImaginaryPosition, toRealPosition, sub_y, mul_y, div_y, add_y]
    field_simp
    ring

theorem roundTrip_iff {view : View} {screen : Screen} (hzoom : view.viewzone ≠ 0)
    (hw : 0 < screen.width) (hh : 0 < screen.height) :
    view.RoundTrip screen ↔ view.viewOrigin = ⟨0, 0⟩ := by
  obtain ⟨hx, hy⟩ := ratio_ne_zero hw hh
  constructor
  · intro h
    have hzero := h.graph ⟨0, 0⟩
    rw [toImaginaryPosition_toRealPosition hzoom hx hy] at hzero
    have hx' := congrArg DPoint.x hzero
    have hy' := congrArg DPoint.y hzero
    simp only [sub_x, add_x] at hx'
    simp only [sub_y, add_y] at hy'
    apply DPoint.ext
    · change view.viewOrigin.x = 0
      linarith
    · change view.viewOrigin.y = 0
      linarith
  · intro horigin
    constructor
    · intro p
      rw [toImaginaryPosition_toRealPosition hzoom hx hy, horigin]
      apply DPoint.ext
      · simp
      · simp
    · intro q
      rw [toRealPosition_toImaginaryPosition hzoom hx hy, horigin]
      apply DPoint.ext
      · simp
      · simp

/-- In every view that drags, zooms and HOME lead to, and for every window, the conversions are
inverse to each other exactly when the origin is zero. -/
theorem after_roundTrip_iff (events : List (Screen × ViewEvent)) :
    (View.after {} events).ZoomBounded ∧
      ∀ screen : Screen, 0 < screen.width → 0 < screen.height →
        ((View.after {} events).RoundTrip screen ↔
          (View.after {} events).viewOrigin = ⟨0, 0⟩) := by
  have hzoom := zoomBounded_default.after events
  refine ⟨hzoom, ?_⟩
  intro screen hw hh
  exact roundTrip_iff hzoom.ne_zero hw hh

/-- HOME leads to such a view. -/
example : (View.after {} [(smallScreen, .home)]).viewOrigin = ⟨0, 0⟩ := rfl

/-- In the view a widget starts with, the origin of the graph comes back one unit further. -/
theorem default_view_shifts :
    View.toImaginaryPosition {} smallScreen (View.toRealPosition {} smallScreen ⟨0, 0⟩) = ⟨1, 1⟩ ∧
      ¬ (View.after {} []).RoundTrip smallScreen := by
  have hshift : View.toImaginaryPosition {} smallScreen
      (View.toRealPosition {} smallScreen ⟨0, 0⟩) = ⟨1, 1⟩ := by decide +kernel
  refine ⟨hshift, ?_⟩
  intro h
  have hzero := h.graph ⟨0, 0⟩
  change View.toImaginaryPosition {} smallScreen (View.toRealPosition {} smallScreen ⟨0, 0⟩) =
    ⟨0, 0⟩ at hzero
  rw [hshift] at hzero
  cases hzero

end View

/-! ## The views of a widget -/

namespace FilterGraph

theorem construct_view {a : Addresses} {w : FilterGraph} (h : construct a = .ok w) :
    w.view = {} := by
  simp only [construct, bind, Except.bind] at h
  repeat
    split at h
    · cases h
  cases h
  rfl

/-- Every view of a widget is one of those above. -/
theorem run_view {w w' : FilterGraph} {events : List (Surroundings × Event)}
    (h : Runs.run step w events = .ok w') : ∃ es, w'.view = w.view.after es := by
  refine Runs.run_preserves step (P := fun w' => ∃ es, w'.view = w.view.after es) ?_ ⟨[], rfl⟩ h
  rintro w₁ ⟨s, event⟩ w₂ ⟨es, hes⟩ hstep
  refine ⟨es ++ (viewEvents s event).map fun e => (s.screen, e), ?_⟩
  rw [step_view hstep, hes, View.after, View.after, List.foldl_append, List.foldl_map]

theorem run_roundTrip_iff {a : Addresses} {w w' : FilterGraph}
    {events : List (Surroundings × Event)} (hw : construct a = .ok w)
    (h : Runs.run step w events = .ok w') {screen : Screen} (hwidth : 0 < screen.width)
    (hheight : 0 < screen.height) :
    w'.view.RoundTrip screen ↔ w'.view.viewOrigin = ⟨0, 0⟩ := by
  obtain ⟨es, hes⟩ := run_view h
  rw [construct_view hw] at hes
  have hzoom := View.zoomBounded_default.after es
  rw [← hes] at hzoom
  exact View.roundTrip_iff hzoom.ne_zero hwidth hheight

end FilterGraph

end Unotu.Widget
