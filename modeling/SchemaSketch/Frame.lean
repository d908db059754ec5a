import SchemaSketch.Diagram
import SchemaSketch.Drawing

/-!
The frame that shows a diagram: every node, the lines from entities to their attributes, and the
lines along foreign keys, each with an arrowhead.
-/
namespace SchemaSketch.Frame

def edgeEnds (source target : Node) : Point × Point :=
  (source.center.towards target.center source.radius,
    target.center.towards source.center target.radius)

def arrowCorner (tip : Point) (direction length offset : Float) : Point :=
  tip - ⟨length * (direction + offset).cos, length * (direction + offset).sin⟩

def arrowhead (tail tip : Point) (length : Float) : Point × Point × Point :=
  let direction := tail.angleTo tip
  (tip, arrowCorner tip direction length (-twelfthTurn),
    arrowCorner tip direction length twelfthTurn)

def nodeMarks (node : Node) : List Mark :=
  [.fillCircle node.center node.radius, .strokeCircle node.center node.radius,
    .text node.center node.name]

def edgeMarks (arrowLength : Float) (source target : Node) : List Mark :=
  let (start, finish) := edgeEnds source target
  let (tip, left, right) := arrowhead start finish arrowLength
  [.line start finish, .triangle tip left right]

def entityMarks (e : Entity) : List Mark :=
  nodeMarks e.node ++ e.attributes.flatMap fun a => nodeMarks a.node

def ownershipMarks (arrowLength : Float) (e : Entity) : List Mark :=
  e.attributes.flatMap fun a => edgeMarks arrowLength e.node a.node

/-- A foreign key whose table is not in the diagram draws nothing. -/
def foreignKeyMarks (arrowLength : Float) (d : Diagram) (e : Entity) : List Mark :=
  e.foreignKeys.flatMap fun key =>
    match d.named? key.table with
    | some target => edgeMarks arrowLength e.node target.node
    | none => []

def marks (arrowLength : Float) (d : Diagram) : List Mark :=
  d.entities.flatMap entityMarks ++ d.entities.flatMap (ownershipMarks arrowLength) ++
    d.entities.flatMap (foreignKeyMarks arrowLength d)

def drawing (arrowLength zoom : Float) (d : Diagram) : Drawing :=
  .clear (.scope zoom (.ofMarks (marks arrowLength d)) .done)

end SchemaSketch.Frame
