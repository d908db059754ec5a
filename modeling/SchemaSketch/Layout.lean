import SchemaSketch.Diagram

/-!
Radial layout: tables evenly on a circle around the middle of the surface, and the attributes of
each table evenly on a circle of half that radius around the table.
-/
namespace SchemaSketch

structure LayoutSettings where
  entityRadius : Float
  attributeRadius : Float
  deriving DecidableEq

namespace Layout

def spokeAngle (index count : Nat) : Float :=
  tau * Float.ofNat index / Float.ofNat count

def attributesFrom (settings : LayoutSettings) (owner : NodeId) (center : Point) (ring : Float)
    (count index : Nat) : List Column → List Attribute
  | [] => []
  | column :: columns =>
    { node :=
        { id := owner + 1 + index
          name := column.name
          center := center.onCircle ring (spokeAngle index count)
          radius := settings.attributeRadius }
      dataType := column.dataType
      primaryKey := column.primaryKey
      owner := owner } ::
      attributesFrom settings owner center ring count (index + 1) columns

def entity (settings : LayoutSettings) (id : NodeId) (center : Point) (ring : Float)
    (table : Table) : Entity where
  node := ⟨id, table.name, center, settings.entityRadius⟩
  attributes := attributesFrom settings id center ring table.columns.length 0 table.columns
  foreignKeys := table.foreignKeys

def entitiesFrom (settings : LayoutSettings) (middle : Point) (ring : Float) (count : Nat)
    (index : Nat) (id : NodeId) : List Table → List Entity × NodeId
  | [] => ([], id)
  | table :: tables =>
    let center := middle.onCircle ring (spokeAngle index count)
    let first := entity settings id center (ring / 2.0) table
    let (rest, next) := entitiesFrom settings middle ring count (index + 1)
      (id + 1 + table.columns.length) tables
    (first :: rest, next)

def radial (settings : LayoutSettings) (width height : Float) (tables : List Table) : Diagram :=
  let (entities, next) := entitiesFrom settings ⟨width / 2.0, height / 2.0⟩
    (smaller width height / 2.0) tables.length 0 0 tables
  ⟨entities, next⟩

end Layout

end SchemaSketch
