import Unotu.Filter.Node
import Mathlib.Algebra.Order.Ring.Rat

/-!
# The view of the filter graph widget

Positions on the screen are ratios of the window and positions in the graph are units of
`PixelsPerGraphUnit` pixels at a zoom of one. All of it is exact, per coordinate.
-/

set_option autoImplicit false

namespace Unotu.Widget

open Unotu.Filter

instance : Add DPoint := ⟨fun p q => ⟨p.x + q.x, p.y + q.y⟩⟩

instance : Sub DPoint := ⟨fun p q => ⟨p.x - q.x, p.y - q.y⟩⟩

instance : Mul DPoint := ⟨fun p q => ⟨p.x * q.x, p.y * q.y⟩⟩

instance : Div DPoint := ⟨fun p q => ⟨p.x / q.x, p.y / q.y⟩⟩

/-- A number stands for the point with both coordinates equal to it. -/
instance : Coe ℚ DPoint := ⟨fun r => ⟨r, r⟩⟩

/-- The window in pixels and the mouse position in window ratios. -/
structure Screen where
  width : Nat
  height : Nat
  mouse : DPoint

/-- The members of `w_filtergraph` that concern its view. -/
structure View where
  viewzone : ℚ := 1
  viewOrigin : DPoint := ⟨-1 / 2, -1 / 2⟩
  bDragging : Bool := false
  dragOrigin : DPoint := ⟨0, 0⟩
  oldOrigin : DPoint := ⟨0, 0⟩
deriving DecidableEq

def pixelsPerGraphUnit : ℚ := 512

def minimumViewzone : ℚ := 1 / 5

def maximumViewzone : ℚ := 20

def Screen.ratio (screen : Screen) : DPoint :=
  (⟨screen.width, screen.height⟩ : DPoint) / (pixelsPerGraphUnit : DPoint)

namespace View

def toRealPosition (view : View) (screen : Screen) (NodePosition : DPoint) : DPoint :=
  (NodePosition - view.viewOrigin) / screen.ratio / (view.viewzone : DPoint)

def toImaginaryPosition (view : View) (screen : Screen) (Position : DPoint) : DPoint :=
  Position * screen.ratio * (view.viewzone : DPoint) - view.viewOrigin

def mousePositionInGraphCoordinates (view : View) (screen : Screen) : DPoint :=
  view.toImaginaryPosition screen screen.mouse

def startDragging (view : View) (screen : Screen) : View :=
  { view with
    bDragging := true
    dragOrigin := view.mousePositionInGraphCoordinates screen
    oldOrigin := view.viewOrigin }

def originDifference (view : View) : DPoint := view.viewOrigin - view.oldOrigin

def dragOffset (view : View) (screen : Screen) : DPoint :=
  view.mousePositionInGraphCoordinates screen - view.dragOrigin + view.originDifference

def adjustViewToDrag (view : View) (screen : Screen) : View :=
  { view with viewOrigin := view.oldOrigin - view.dragOffset screen }

def stopDragging (view : View) (screen : Screen) : View :=
  if view.bDragging then { view with bDragging := false }.adjustViewToDrag screen else view

/-- `unotui::clamp` to the two bounds that `ZoomBy` writes out. -/
def clampViewzone (r : ℚ) : ℚ := max minimumViewzone (min r maximumViewzone)

/-- Outside of a drag the zoom is one short drag, which keeps the point under the mouse. -/
def zoomBy (view : View) (screen : Screen) (Amount : ℚ) : View :=
  let newViewzone := clampViewzone (view.viewzone - Amount)
  if view.bDragging then { view with viewzone := newViewzone }
  else { view.startDragging screen with viewzone := newViewzone }.stopDragging screen

end View

end Unotu.Widget
