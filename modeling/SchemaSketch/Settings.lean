import SchemaSketch.Layout

/-!
The tunable values of layout, drawing and editing, and their defaults.
-/
namespace SchemaSketch

structure CanvasSettings where
  width : Float
  height : Float
  deriving DecidableEq

structure DrawingSettings where
  arrowLength : Float
  /-- Pixels per character cell. -/
  cellSize : Float
  deriving DecidableEq

structure InteractionSettings where
  /-- How close to the rim of a node the pointer must be to grab the rim. -/
  rimTolerance : Float
  zoomStep : Float
  minZoom : Float
  maxZoom : Float
  confirmDeletes : Bool
  deriving DecidableEq

structure Settings where
  canvas : CanvasSettings
  layout : LayoutSettings
  drawing : DrawingSettings
  interaction : InteractionSettings
  deriving DecidableEq

def CanvasSettings.standard : CanvasSettings :=
  ⟨800.0, 600.0⟩

def LayoutSettings.standard : LayoutSettings :=
  ⟨50.0, 45.0⟩

def DrawingSettings.standard : DrawingSettings :=
  ⟨10.0, 10.0⟩

def InteractionSettings.standard : InteractionSettings :=
  ⟨5.0, 0.1, 0.5, 2.0, false⟩

def Settings.standard : Settings :=
  ⟨.standard, .standard, .standard, .standard⟩

end SchemaSketch
