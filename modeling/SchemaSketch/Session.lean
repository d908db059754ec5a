import SchemaSketch.Editor
import SchemaSketch.Script
import SchemaSketch.Surface.Recording
import SchemaSketch.Surface.TextImage
import SchemaSketch.Surface.VectorImage

/-!
Whole sessions: a diagram is generated from a text, a script of events is replayed on it, and the
last frame is the result.
-/
namespace SchemaSketch

inductive Format
  | vector
  | text
  deriving DecidableEq

namespace Session

/-- The call that an event stands for. Every `generate` reads the same source again, and every
delete gets the same answer. -/
def call (source : String) (confirmed : Bool) : Event → Call
  | .generate => .generate source
  | .release => .release
  | .press pointer => .press pointer
  | .move pointer => .move pointer
  | .delete pointer => .delete pointer confirmed
  | .rename pointer name => .rename pointer name
  | .zoom .inwards => .scroll (-1.0) true
  | .zoom .outwards => .scroll 1.0 true
  | .resize width height => .resize width height

def replay {σ : Type} [Surface σ] (e : Editor σ) (source : String) (confirmed : Bool)
    (events : List Event) : Except Fault (Editor σ) :=
  e.run (events.map (call source confirmed))

def play {σ : Type} [Surface σ] (settings : Settings) (surface : σ) (source : String)
    (confirmed : Bool) (events : List Event) : Except Fault (Editor σ) :=
  replay ((Editor.start settings surface).generate source) source confirmed events

def render (settings : Settings) (format : Format) (source : String) (confirmed : Bool)
    (events : List Event) : Except Fault String :=
  let width := settings.canvas.width
  let height := settings.canvas.height
  match format with
  | .vector =>
    (play settings (VectorImage.blank width height) source confirmed events).map
      (·.surface.document)
  | .text =>
    (play settings (TextImage.blank width height settings.drawing.cellSize) source confirmed
      events).map (·.surface.grid.text)

end Session

end SchemaSketch
