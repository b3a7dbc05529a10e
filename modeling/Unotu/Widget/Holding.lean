import Unotu.Library.Viewport
import Unotu.Widget.Coordinates
import Unotu.Widget.Keys

/-!
# The view holds a point

`DragOffset` feeds the origin of the view back into itself. What comes out of it is a view that
is held by the point where the drag started.
-/

set_option autoImplicit false

namespace Unotu.Widget

open Unotu.Graph Unotu.Filter

instance : Zero DPoint := ⟨⟨0, 0⟩⟩

instance : Neg DPoint := ⟨fun p => ⟨-p.x, -p.y⟩⟩

instance : AddCommGroup DPoint where
  add_assoc p q r := DPoint.ext (add_assoc p.x q.x r.x) (add_assoc p.y q.y r.y)
  zero_add p := DPoint.ext (zero_add p.x) (zero_add p.y)
  add_zero p := DPoint.ext (add_zero p.x) (add_zero p.y)
  add_comm p q := DPoint.ext (add_comm p.x q.x) (add_comm p.y q.y)
  neg_add_cancel p := DPoint.ext (neg_add_cancel p.x) (neg_add_cancel p.y)
  sub_eq_add_neg p q := DPoint.ext (sub_eq_add_neg p.x q.x) (sub_eq_add_neg p.y q.y)
  nsmul := nsmulRec
  zsmul := zsmulRec

/-- How far from the origin of the view the mouse is. -/
def Screen.offset (screen : Screen) (viewzone : ℚ) : DPoint :=
  screen.mouse * screen.ratio * (viewzone : DPoint)

/-- The zoom that `ZoomBy` sets. -/
def rezoom (viewzone Amount : ℚ) : ℚ := View.clampViewzone (viewzone - Amount)

def ViewEvent.motion : ViewEvent → Viewport.Motion ℚ
  | .onTick => .tick
  | .zoomBy Amount => .rezoom Amount
  | .home => .reset
  | .startDragging => .grab
  | .stopDragging => .release

namespace View

/-- The view without the bookkeeping of its drag. -/
def viewport (view : View) : Viewport DPoint ℚ where
  zoom := view.viewzone
  origin := view.viewOrigin
  held := if view.bDragging then some (view.oldOrigin + view.oldOrigin + view.dragOrigin) else none

theorem adjustViewToDrag_eq (view : View) (screen : Screen) :
    view.adjustViewToDrag screen = { view with
      viewOrigin := view.oldOrigin + view.oldOrigin + view.dragOrigin - screen.offset view.viewzone } := by
  have horigin : (view.adjustViewToDrag screen).viewOrigin =
      view.oldOrigin + view.oldOrigin + view.dragOrigin - screen.offset view.viewzone :=
    eq_sub_of_add_eq (pointUnderCursor_adjust view screen)
  rw [← horigin]
  rfl

theorem startDragging_viewport (view : View) (screen : Screen) :
    (view.startDragging screen).viewport =
      ⟨view.viewzone, view.viewOrigin, some (view.pointUnderCursor screen)⟩ := by
  rw [← origins_startDragging view screen]
  rfl

theorem stopDragging_viewport {view : View} (h : view.bDragging = true) (screen : Screen) :
    (view.stopDragging screen).viewport =
      ⟨view.viewzone,
        view.oldOrigin + view.oldOrigin + view.dragOrigin - screen.offset view.viewzone, none⟩ := by
  rw [stopDragging, if_pos h, adjustViewToDrag_eq]
  rfl

theorem zoomBy_viewport {view : View} (h : view.bDragging = false) (screen : Screen) (Amount : ℚ) :
    (view.zoomBy screen Amount).viewport =
      ⟨rezoom view.viewzone Amount,
        view.pointUnderCursor screen - screen.offset (rezoom view.viewzone Amount), none⟩ := by
  have hzoom : view.zoomBy screen Amount =
      ({ view.startDragging screen with viewzone := rezoom view.viewzone Amount } :
        View).stopDragging screen := by
    simp only [zoomBy, h, Bool.false_eq_true, if_false]
    rfl
  rw [hzoom, stopDragging_viewport rfl, ← origins_startDragging view screen]

/-- One event of the view is one motion of the view that is held by a point. -/
theorem step_viewport (view : View) (screen : Screen) (event : ViewEvent) :
    (view.step screen event).viewport =
      view.viewport.step Screen.offset rezoom screen event.motion := by
  cases hdragging : view.bDragging with
  | false =>
    have hheld : view.viewport.held = none := by simp [viewport, hdragging]
    cases event with
    | onTick =>
      have hstep : view.step screen .onTick = view := by simp [step, hdragging]
      rw [hstep, ViewEvent.motion, Viewport.step, Viewport.follow, hheld]
    | zoomBy Amount =>
      rw [ViewEvent.motion, Viewport.step, hheld]
      rw [step, zoomBy_viewport hdragging]
      simp only [viewport, hdragging, Bool.false_eq_true, if_false]
      rfl
    | home => rfl
    | startDragging => exact startDragging_viewport view screen
    | stopDragging =>
      have hstep : view.step screen .stopDragging = view := by simp [step, stopDragging, hdragging]
      rw [hstep, ViewEvent.motion, Viewport.step, Viewport.follow, hheld]
      simp only [viewport, hdragging, Bool.false_eq_true, if_false]
  | true =>
    have hheld : view.viewport.held =
        some (view.oldOrigin + view.oldOrigin + view.dragOrigin) := by simp [viewport, hdragging]
    cases event with
    | onTick =>
      rw [ViewEvent.motion, Viewport.step, Viewport.follow, hheld]
      rw [step, if_pos hdragging, adjustViewToDrag_eq]
      simp only [viewport, hdragging, if_true]
      rfl
    | zoomBy Amount =>
      rw [ViewEvent.motion, Viewport.step, hheld]
      rw [step, zoomBy, if_pos hdragging]
      simp only [viewport, hdragging, if_true]
      rfl
    | home => rfl
    | startDragging => exact startDragging_viewport view screen
    | stopDragging =>
      rw [ViewEvent.motion, Viewport.step_release Screen.offset rezoom hheld]
      exact stopDragging_viewport hdragging screen

theorem after_run (view : View) (events : List (Screen × ViewEvent)) :
    (view.after events).viewport =
      view.viewport.run Screen.offset rezoom (events.map fun e => (e.1, e.2.motion)) := by
  induction events generalizing view with
  | nil => rfl
  | cons event events ih =>
    rw [List.map_cons, Viewport.run, List.foldl_cons, ← step_viewport]
    exact ih (view.step event.1 event.2)

/-- Over any events the code, with its two origins, moves the view as one that is held by a point;
a drag that is let go has only moved the point under the cursor along with the cursor, whatever
ticks, zooms and resets were on the way. -/
theorem after_viewport (view : View) (events : List (Screen × ViewEvent)) :
    (view.after events).viewport =
        view.viewport.run Screen.offset rezoom (events.map fun e => (e.1, e.2.motion)) ∧
      ∀ start stop : Screen, (∀ e ∈ events, e.2 ≠ .startDragging ∧ e.2 ≠ .stopDragging) →
        (view.after ((start, .startDragging) :: events ++ [(stop, .stopDragging)])).viewport =
          ⟨Viewport.zoomed rezoom view.viewzone (events.map fun e => (e.1, e.2.motion)),
            view.pointUnderCursor start - stop.offset
              (Viewport.zoomed rezoom view.viewzone (events.map fun e => (e.1, e.2.motion))),
            none⟩ := by
  refine ⟨after_run view events, ?_⟩
  intro start stop hbetween
  rw [after_run, List.map_append, List.map_cons, List.map_singleton]
  apply Viewport.run_session
  intro motion hmotion
  obtain ⟨e, he, rfl⟩ := List.mem_map.mp hmotion
  obtain ⟨hstart, hstop⟩ := hbetween e he
  cases hevent : e.2 with
  | onTick => exact trivial
  | zoomBy Amount => exact trivial
  | home => exact trivial
  | startDragging => exact absurd hevent hstart
  | stopDragging => exact absurd hevent hstop

/-- The default view, zoomed in and reset during a drag. -/
theorem after_viewport_dragged :
    (View.after {} ((wideScreen, .startDragging) :: [(wideScreen, .zoomBy (1 / 2)), (smallScreen, .home)]
      ++ [(smallScreen, .stopDragging)])).viewport.origin = ⟨0, -3 / 4⟩ := by
  have hsession := (after_viewport {} [(wideScreen, .zoomBy (1 / 2)), (smallScreen, .home)]).2
    wideScreen smallScreen (by simp)
  rw [hsession]
  decide +kernel

/-! ## What is drawn under the cursor -/

theorem toRealPosition_eq_mouse_iff {view : View} {screen : Screen} (hzoom : view.viewzone ≠ 0)
    (hw : 0 < screen.width) (hh : 0 < screen.height) {p : DPoint} :
    view.toRealPosition screen p = screen.mouse ↔ view.pointUnderCursor screen = p := by
  obtain ⟨hx, hy⟩ := ratio_ne_zero hw hh
  constructor
  · intro h
    rw [pointUnderCursor, ← h]
    apply DPoint.ext
    · simp only [toRealPosition, add_x, mul_x, div_x, sub_x]
      field_simp
      ring
    · simp only [toRealPosition, add_y, mul_y, div_y, sub_y]
      field_simp
      ring
  · intro h
    rw [← h]
    apply DPoint.ext
    · simp only [toRealPosition, pointUnderCursor, add_x, mul_x, div_x, sub_x]
      field_simp
      ring
    · simp only [toRealPosition, pointUnderCursor, add_y, mul_y, div_y, sub_y]
      field_simp
      ring

/-- A new node is placed at the point that is under the cursor. -/
theorem placedLiteral_position (view : View) (screen : Screen) :
    (FilterGraph.placedLiteral view screen).position = view.pointUnderCursor screen := by
  apply DPoint.ext
  · simp only [FilterGraph.placedLiteral, mousePositionInGraphCoordinates, toImaginaryPosition,
      pointUnderCursor, add_x, sub_x, mul_x]
    ring
  · simp only [FilterGraph.placedLiteral, mousePositionInGraphCoordinates, toImaginaryPosition,
      pointUnderCursor, add_y, sub_y, mul_y]
    ring

end View

namespace FilterGraph

/-- In every state of the widget a press that falls through, of `SPACE` as of `1`, has added one
literal to the graph before its evaluation stops, and the literal is drawn under the mouse. -/
theorem run_addsUnderMouse (a : Addresses) (events : List (Surroundings × Event)) :
    ∃ w₀, construct a = .ok w₀ ∧ Runs.Along step
      (fun w => ∀ (s : Surroundings) (Action : KeyAction) (k : Key), FallsThrough Action k →
        w.world.heap.nodes s.address = .unused → 0 < s.screen.width → 0 < s.screen.height →
        ∃ w' node, w.onKeyInput s Action k = .error (w', .fault .nullDereference) ∧
          AddsLiteral (w.setView w'.view) w' s.address ∧
          w'.world.filters (.data s.address) = some node ∧ node.kind = .fnBooleanLiteral ∧
          w'.view.toRealPosition s.screen node.position = s.screen.mouse) w₀ events := by
  obtain ⟨w₀, hw₀, hidle₀⟩ := construct_idle a
  refine ⟨w₀, hw₀, ?_⟩
  intro before w _ hrun s Action k hfalls hunused hwidth hheight
  have hidle : w.Idle := Runs.run_preserves step (fun _ _ _ h hs => h.step hs) hidle₀ hrun
  obtain ⟨es, hes⟩ := run_view hrun
  rw [construct_view hw₀] at hes
  have hzoom := View.zoomBounded_default.after es
  rw [← hes] at hzoom
  obtain ⟨w', hkey, hadded⟩ := hidle.fallsThrough_spec s hfalls
  obtain ⟨hadds, hliteral, hzone⟩ := hadded hunused
  refine ⟨w', _, hkey, hadds, hliteral, rfl, ?_⟩
  have hnonzero : w'.view.viewzone ≠ 0 := by
    rw [hzone]
    exact hzoom.ne_zero
  rw [View.toRealPosition_eq_mouse_iff hnonzero hwidth hheight]
  exact (View.placedLiteral_position w'.view s.screen).symm

end FilterGraph

end Unotu.Widget
