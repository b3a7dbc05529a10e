import Unotu.Widget.FilterGraph
import Mathlib.Tactic.Ring

/-!
# Dragging and zooming

The view as a machine of its own: what ticks, zooms, resets and the two ends of a drag do to
it, wherever the mouse is and however large the window is at that moment. Whenever the view
is adjusted to a drag, the point under the cursor is the one at the start of the drag.
-/

set_option autoImplicit false

namespace Unotu.Widget

open Unotu.Graph Unotu.Filter

theorem DPoint.ext {p q : DPoint} (hx : p.x = q.x) (hy : p.y = q.y) : p = q := by
  cases p
  cases q
  cases hx
  cases hy
  rfl

@[simp] theorem add_x (p q : DPoint) : (p + q).x = p.x + q.x := rfl

@[simp] theorem add_y (p q : DPoint) : (p + q).y = p.y + q.y := rfl

@[simp] theorem sub_x (p q : DPoint) : (p - q).x = p.x - q.x := rfl

@[simp] theorem sub_y (p q : DPoint) : (p - q).y = p.y - q.y := rfl

@[simp] theorem mul_x (p q : DPoint) : (p * q).x = p.x * q.x := rfl

@[simp] theorem mul_y (p q : DPoint) : (p * q).y = p.y * q.y := rfl

inductive ViewEvent where
  | onTick
  | zoomBy (Amount : ℚ)
  | home
  | startDragging
  | stopDragging

namespace View

/-- One event, with the window and the mouse as they are at that moment. -/
def step (view : View) (screen : Screen) : ViewEvent → View
  | .onTick => if view.bDragging then view.adjustViewToDrag screen else view
  | .zoomBy Amount => view.zoomBy screen Amount
  | .home => { view with viewOrigin := ⟨0, 0⟩ }
  | .startDragging => view.startDragging screen
  | .stopDragging => view.stopDragging screen

/-- The event runs `AdjustViewToDrag`. -/
def Adjusts (view : View) : ViewEvent → Prop
  | .onTick => view.bDragging = true
  | .stopDragging => view.bDragging = true
  | _ => False

/-- The event runs `StartDragging`. -/
def Starts (view : View) : ViewEvent → Prop
  | .startDragging => True
  | .zoomBy _ => view.bDragging = false
  | _ => False

/-- The point of the graph that is drawn under the cursor. -/
def pointUnderCursor (view : View) (screen : Screen) : DPoint :=
  view.viewOrigin + screen.mouse * screen.ratio * (view.viewzone : DPoint)

/-- The views that a drag passes through from its start to the next one. -/
inductive InDrag (view0 : View) (screen0 : Screen) : View → Prop where
  | start : InDrag view0 screen0 (view0.startDragging screen0)
  | step {view : View} (screen : Screen) {event : ViewEvent} :
      InDrag view0 screen0 view → ¬ view.Starts event → InDrag view0 screen0 (view.step screen event)

/-- After an adjustment the point under the cursor is fixed by the two origins of the drag;
the current `ViewOrigin` cancels. -/
theorem pointUnderCursor_adjust (view : View) (screen : Screen) :
    (view.adjustViewToDrag screen).pointUnderCursor screen =
      view.oldOrigin + view.oldOrigin + view.dragOrigin := by
  apply DPoint.ext
  · simp only [pointUnderCursor, adjustViewToDrag, dragOffset, originDifference,
      mousePositionInGraphCoordinates, toImaginaryPosition, add_x, sub_x, mul_x]
    ring
  · simp only [pointUnderCursor, adjustViewToDrag, dragOffset, originDifference,
      mousePositionInGraphCoordinates, toImaginaryPosition, add_y, sub_y, mul_y]
    ring

theorem origins_startDragging (view : View) (screen : Screen) :
    (view.startDragging screen).oldOrigin + (view.startDragging screen).oldOrigin +
      (view.startDragging screen).dragOrigin = view.pointUnderCursor screen := by
  apply DPoint.ext
  · simp only [pointUnderCursor, startDragging, mousePositionInGraphCoordinates,
      toImaginaryPosition, add_x, sub_x, mul_x]
    ring
  · simp only [pointUnderCursor, startDragging, mousePositionInGraphCoordinates,
      toImaginaryPosition, add_y, sub_y, mul_y]
    ring

/-- Only the start of a drag sets its origins. -/
theorem origins_step {view : View} (screen : Screen) {event : ViewEvent} (h : ¬ view.Starts event) :
    (view.step screen event).oldOrigin = view.oldOrigin ∧
      (view.step screen event).dragOrigin = view.dragOrigin := by
  cases event with
  | onTick =>
    simp only [step]
    split
    · exact ⟨rfl, rfl⟩
    · exact ⟨rfl, rfl⟩
  | zoomBy Amount =>
    have hdragging : view.bDragging = true := by simpa [Starts] using h
    have hzoom : view.step screen (.zoomBy Amount) =
        { view with viewzone := clampViewzone (view.viewzone - Amount) } := by
      simp only [step, zoomBy, hdragging, if_true]
    rw [hzoom]
    exact ⟨rfl, rfl⟩
  | home => exact ⟨rfl, rfl⟩
  | startDragging => exact absurd trivial h
  | stopDragging =>
    simp only [step, stopDragging]
    split
    · exact ⟨rfl, rfl⟩
    · exact ⟨rfl, rfl⟩

theorem InDrag.origins {view0 view : View} {screen0 : Screen} (h : InDrag view0 screen0 view) :
    view.oldOrigin + view.oldOrigin + view.dragOrigin = view0.pointUnderCursor screen0 := by
  induction h with
  | start => exact origins_startDragging view0 screen0
  | step screen _ hstarts ih =>
    obtain ⟨hold, hdrag⟩ := origins_step screen hstarts
    rw [hold, hdrag, ih]

theorem step_of_adjusts {view : View} (screen : Screen) {event : ViewEvent} (h : view.Adjusts event) :
    (view.step screen event).pointUnderCursor screen =
      (view.adjustViewToDrag screen).pointUnderCursor screen := by
  cases event with
  | onTick =>
    have hdragging : view.bDragging = true := h
    simp only [step, hdragging, if_true]
  | stopDragging =>
    have hdragging : view.bDragging = true := h
    simp only [step, stopDragging, hdragging, if_true]
    rfl
  | zoomBy Amount => exact absurd h id
  | home => exact absurd h id
  | startDragging => exact absurd h id

theorem zoomBy_keeps_pointUnderCursor {view : View} (screen : Screen) (Amount : ℚ)
    (h : view.bDragging = false) :
    (view.zoomBy screen Amount).pointUnderCursor screen = view.pointUnderCursor screen := by
  have hzoom : view.zoomBy screen Amount =
      ({ view.startDragging screen with
          viewzone := clampViewzone (view.viewzone - Amount), bDragging := false } :
        View).adjustViewToDrag screen := by
    simp [zoomBy, h, stopDragging, startDragging]
  rw [hzoom, pointUnderCursor_adjust, ← origins_startDragging view screen]

/-- The point under the cursor is the one at the start of the drag after every adjustment,
and it stays where it is when the view is zoomed outside of a drag. -/
theorem point_under_cursor_kept (view0 : View) (screen0 : Screen) :
    (∀ view, InDrag view0 screen0 view → ∀ (screen : Screen) (event : ViewEvent),
      view.Adjusts event →
        (view.step screen event).pointUnderCursor screen = view0.pointUnderCursor screen0) ∧
    (∀ Amount : ℚ, view0.bDragging = false →
      (view0.zoomBy screen0 Amount).pointUnderCursor screen0 = view0.pointUnderCursor screen0) := by
  constructor
  · intro view hdrag screen event hadjusts
    rw [step_of_adjusts screen hadjusts, pointUnderCursor_adjust, hdrag.origins]
  · intro Amount hdragging
    exact zoomBy_keeps_pointUnderCursor screen0 Amount hdragging

def wideScreen : Screen := ⟨1024, 512, ⟨1 / 2, 1 / 4⟩⟩

def smallScreen : Screen := ⟨512, 512, ⟨1, 1⟩⟩

/-- The default view in a drag, zoomed in on the way. -/
def draggedView : View := (View.startDragging {} wideScreen).step wideScreen (.zoomBy (1 / 2))

theorem dragged_point_kept :
    (draggedView.step smallScreen .stopDragging).pointUnderCursor smallScreen =
        View.pointUnderCursor {} wideScreen ∧
      (View.zoomBy {} wideScreen 3).pointUnderCursor wideScreen =
        View.pointUnderCursor {} wideScreen := by
  obtain ⟨hdrag, hzoom⟩ := point_under_cursor_kept {} wideScreen
  refine ⟨hdrag draggedView ?_ smallScreen .stopDragging rfl, hzoom 3 rfl⟩
  apply InDrag.step wideScreen InDrag.start
  simp [Starts, startDragging]

end View

/-! ## The events of the widget -/

/-- What an event of the widget does to its view. -/
def viewEvents (s : Surroundings) : Event → List ViewEvent
  | .onTick => [.onTick]
  | .scrollLines Lines => [.zoomBy (1 / 5 * Lines)]
  | .scrollPages Pages => [.zoomBy (1 / 2 * Pages)]
  | .onMousePressed .left => if s.bShiftPressed then [.startDragging] else []
  | .onMousePressed .middle => [.startDragging]
  | .onMouseReleased .left => [.stopDragging, .stopDragging]
  | .onMouseReleased .middle => [.stopDragging]
  | .onKeyInput .press .home => [.home]
  | .onKeyInput .press .space => [.startDragging]
  | .onKeyInput .release .space => [.stopDragging]
  | _ => []

namespace FilterGraph

theorem keyEnter_view {w w' : FilterGraph} {s : Surroundings} {Action : KeyAction} {r : Option Bool}
    (h : w.keyEnter s Action = .ok (w', r)) : w'.view = w.view := by
  unfold keyEnter at h
  split at h
  · split at h
    · cases h
      rfl
    · cases h
  · cases h
    rfl

theorem onWorld_view {w w' : FilterGraph} {r : Except Stopped World} (h : w.onWorld r = .ok w') :
    w'.view = w.view := by
  cases r with
  | ok world =>
    cases h
    rfl
  | error stopped => cases h

theorem addLiteral_view {w w' : FilterGraph} {s : Surroundings} (h : w.addLiteral s = .ok w') :
    w'.view = w.view := by
  unfold addLiteral at h
  split at h
  · exact onWorld_view h
  · cases h
    rfl

theorem keyOne_view {w w' : FilterGraph} {s : Surroundings} {Action : KeyAction} {r : Option Bool}
    (h : w.keyOne s Action = .ok (w', r)) : w'.view = w.view := by
  unfold keyOne at h
  split at h
  · cases hadd : w.addLiteral s with
    | error e => simp [hadd, bind, Except.bind] at h
    | ok added =>
      simp only [hadd, bind, Except.bind] at h
      exact (keyEnter_view h).trans (addLiteral_view hadd)
  · exact keyEnter_view h

theorem onKeyInput_view {w w' : FilterGraph} {s : Surroundings} {Action : KeyAction} {k : Key}
    {r : Option Bool} (h : w.onKeyInput s Action k = .ok (w', r)) :
    w'.view = (viewEvents s (.onKeyInput Action k)).foldl (·.step s.screen) w.view := by
  cases k with
  | home =>
    cases h
    cases Action with
    | press => rfl
    | release => rfl
    | «repeat» => rfl
  | space =>
    have hview := keyOne_view h
    cases Action with
    | press => exact hview
    | release => exact hview
    | «repeat» => exact hview
  | one =>
    have hview := keyOne_view h
    cases Action with
    | press => exact hview
    | release => exact hview
    | «repeat» => exact hview
  | enter =>
    have hview := keyEnter_view h
    cases Action with
    | press => exact hview
    | release => exact hview
    | «repeat» => exact hview
  | other =>
    cases h
    cases Action with
    | press => rfl
    | release => rfl
    | «repeat» => rfl

/-- The view of the widget runs as the machine of the view does. -/
theorem step_view {w w' : FilterGraph} {s : Surroundings} {event : Event}
    (h : w.step (s, event) = .ok w') :
    w'.view = (viewEvents s event).foldl (·.step s.screen) w.view := by
  cases event with
  | onTick =>
    cases h
    simp only [onTick, viewEvents, List.foldl_cons, List.foldl_nil, View.step]
    split
    · rfl
    · rfl
  | onRefresh => exact onWorld_view h
  | scrollLines Lines =>
    cases h
    rfl
  | scrollPages Pages =>
    cases h
    rfl
  | onMousePressed Button =>
    cases h
    cases Button with
    | left =>
      simp only [onMousePressed, viewEvents]
      split
      · rfl
      · rfl
    | middle => rfl
    | other => rfl
  | onMouseReleased Button =>
    cases h
    cases Button with
    | left => rfl
    | middle => rfl
    | other => rfl
  | onKeyInput Action k =>
    simp only [step] at h
    cases hkey : w.onKeyInput s Action k with
    | error e => simp [hkey, Except.map] at h
    | ok result =>
      simp only [hkey, Except.map, Except.ok.injEq] at h
      rw [← h]
      exact onKeyInput_view hkey

end FilterGraph

end Unotu.Widget
