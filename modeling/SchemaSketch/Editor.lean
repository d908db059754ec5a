import SchemaSketch.Frame
import SchemaSketch.Schema.Statement
import SchemaSketch.Settings

/-!
Editing a diagram with a pointer. The editor owns the diagram and the surface that shows it, and
draws a new frame after every change. Pointer coordinates are model coordinates: the zoom factor
scales what is drawn and nothing else.
-/
namespace SchemaSketch

/-- What the pointer holds. When a node is dragged, the offset is where in the node it was taken;
when it is resized, the offset is how far outside the rim it was taken. -/
inductive Grip
  | idle
  | dragging (node : Address) (offset : Point)
  | resizing (node : Address) (offset : Float)
  deriving DecidableEq

def Grip.held? : Grip → Option Address
  | .idle => none
  | .dragging node _ => some node
  | .resizing node _ => some node

inductive Question
  | confirm (message : String)
  | prompt (message suggestion : String)
  deriving DecidableEq

def Question.delete (name : String) : Question :=
  .confirm ("Delete node \"" ++ name ++ "\"?")

def Question.rename (name : String) : Question :=
  .prompt ("Rename node (current name: " ++ name ++ ")") name

structure Reply where
  changed : Option Bool
  asked : Option Question
  deriving DecidableEq

def Reply.silent : Reply :=
  ⟨none, none⟩

inductive Fault
  | emptyZoomRange
  deriving DecidableEq

/-- One call to an editor, with the answer to the question it may ask. -/
inductive Call
  | generate (source : String)
  | resize (width height : Float)
  | press (pointer : Point)
  | move (pointer : Point)
  | release
  | delete (pointer : Point) (confirmed : Bool)
  | rename (pointer : Point) (answer : Option String)
  | scroll (delta : Float) (modifier : Bool)
  | redraw
  deriving DecidableEq

structure Editor (σ : Type) where
  surface : σ
  diagram : Diagram
  /-- The tables of the last generated text. -/
  tables : List Table
  grip : Grip
  zoom : Float
  settings : Settings

namespace Editor

variable {σ : Type} [Surface σ]

def start (settings : Settings) (surface : σ) : Editor σ :=
  ⟨surface, .empty, [], .idle, 1.0, settings⟩

def frame (e : Editor σ) : Drawing :=
  Frame.drawing e.settings.drawing.arrowLength e.zoom e.diagram

def redraw (e : Editor σ) : Editor σ :=
  { e with surface := e.frame.on e.surface }

def relayout (e : Editor σ) : Editor σ :=
  redraw { e with
    diagram := Layout.radial e.settings.layout (Surface.width e.surface)
      (Surface.height e.surface) e.tables
    grip := .idle }

def generate (e : Editor σ) (source : String) : Editor σ :=
  relayout { e with tables := Schema.ofText source }

def resize (e : Editor σ) (width height : Float) : Editor σ :=
  relayout { e with surface := Surface.resize width height e.surface }

def target? (e : Editor σ) (pointer : Point) : Option (Address × Node) := do
  let address ← e.diagram.hit? pointer
  let node ← e.diagram.node? address
  some (address, node)

def grab (tolerance : Float) (pointer : Point) (address : Address) (node : Node) : Grip :=
  let outside := pointer.distance node.center - node.radius
  if outside.abs ≤ tolerance then .resizing address outside
  else .dragging address (pointer - node.center)

def press (e : Editor σ) (pointer : Point) : Editor σ :=
  match e.target? pointer with
  | none => e
  | some (address, node) =>
    { e with grip := grab e.settings.interaction.rimTolerance pointer address node }

def adjust (e : Editor σ) (address : Address) (f : Node → Node) : Editor σ :=
  if e.diagram.holds address then
    redraw { e with diagram := e.diagram.modify address f }
  else { e with grip := .idle }

/-- Moves the pointer and with it the held node or its rim. A radius may become negative. -/
def move (e : Editor σ) (pointer : Point) : Editor σ :=
  match e.grip with
  | .idle => e
  | .dragging address offset =>
    e.adjust address fun node => { node with center := pointer - offset }
  | .resizing address offset =>
    e.adjust address fun node => { node with radius := pointer.distance node.center - offset }

def release (e : Editor σ) : Editor σ :=
  { e with grip := .idle }

def dropLost (e : Editor σ) : Editor σ :=
  match e.grip.held? with
  | none => e
  | some address => if e.diagram.holds address then e else { e with grip := .idle }

def delete (e : Editor σ) (pointer : Point) (confirmed : Bool) : Editor σ × Reply :=
  match e.target? pointer with
  | none => (e, ⟨some false, none⟩)
  | some (address, node) =>
    if confirmed then
      (redraw (dropLost { e with diagram := e.diagram.remove address }),
        ⟨some true, some (.delete node.name)⟩)
    else (e, ⟨some false, some (.delete node.name)⟩)

def newName? (current : String) (answer : Option String) : Option String :=
  match answer with
  | none => none
  | some answer =>
    let name := String.ofList (Text.trim answer.toList)
    if name = "" ∨ name = current then none else some name

/-- Renames the node under the pointer to the answer, without the white space around it. No
answer, a blank one and the current name leave everything as it is. -/
def rename (e : Editor σ) (pointer : Point) (answer : Option String) : Editor σ × Reply :=
  match e.target? pointer with
  | none => (e, ⟨some false, none⟩)
  | some (address, node) =>
    match newName? node.name answer with
    | none => (e, ⟨some false, some (.rename node.name)⟩)
    | some name =>
      (redraw { e with diagram := e.diagram.modify address fun node => { node with name := name } },
        ⟨some true, some (.rename node.name)⟩)

def clampZoom? (bounds : InteractionSettings) (zoom : Float) : Option Float :=
  if bounds.minZoom ≤ bounds.maxZoom then
    some (if zoom < bounds.minZoom then bounds.minZoom
      else if bounds.maxZoom < zoom then bounds.maxZoom
      else zoom)
  else none

/-- One notch of the wheel with the modifier held: down zooms out, anything but down zooms in. -/
def scroll (e : Editor σ) (delta : Float) (modifier : Bool) : Except Fault (Editor σ) :=
  if !modifier || delta == 0.0 then .ok e
  else
    let bounds := e.settings.interaction
    let step := if 0.0 < delta then -bounds.zoomStep else bounds.zoomStep
    match clampZoom? bounds (e.zoom + step) with
    | none => .error .emptyZoomRange
    | some zoom => .ok (redraw { e with zoom := zoom })

def step (e : Editor σ) : Call → Except Fault (Editor σ × Reply)
  | .generate source => .ok (e.generate source, .silent)
  | .resize width height => .ok (e.resize width height, .silent)
  | .press pointer => .ok (e.press pointer, .silent)
  | .move pointer => .ok (e.move pointer, .silent)
  | .release => .ok (e.release, .silent)
  | .delete pointer confirmed => .ok (e.delete pointer confirmed)
  | .rename pointer answer => .ok (e.rename pointer answer)
  | .scroll delta modifier => (e.scroll delta modifier).map (·, .silent)
  | .redraw => .ok (e.redraw, .silent)

def run (e : Editor σ) : List Call → Except Fault (Editor σ)
  | [] => .ok e
  | call :: calls =>
    match e.step call with
    | .error fault => .error fault
    | .ok (e, _) => e.run calls

def replies (e : Editor σ) : List Call → List Reply
  | [] => []
  | call :: calls =>
    match e.step call with
    | .error _ => []
    | .ok (e, reply) => reply :: e.replies calls

theorem run_append (e : Editor σ) (calls more : List Call) :
    e.run (calls ++ more) = (e.run calls).bind (·.run more) := by
  induction calls generalizing e with
  | nil => rfl
  | cons call calls ih =>
    simp only [List.cons_append, run]
    cases e.step call with
    | error fault => rfl
    | ok r => exact ih r.1

end Editor

end SchemaSketch
