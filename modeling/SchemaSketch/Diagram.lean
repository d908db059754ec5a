import SchemaSketch.Geometry
import SchemaSketch.Schema

/-!
Diagrams: entities with their attributes, each node a circle with a name. Entities own their
attributes; foreign keys are kept by name and looked up when they are drawn.
-/
namespace SchemaSketch

abbrev NodeId := Nat

structure Node where
  id : NodeId
  name : String
  center : Point
  radius : Float
  deriving DecidableEq

/-- Whether a point lies in or on the circle of a node. A node whose radius has shrunk to nothing
holds no point. -/
def Node.contains (node : Node) (p : Point) : Bool :=
  0.0 < node.radius && p.distanceSquared node.center ≤ node.radius * node.radius

structure Attribute where
  node : Node
  dataType : String
  primaryKey : Bool
  /-- The entity that holds the attribute. -/
  owner : NodeId
  deriving DecidableEq

structure Entity where
  node : Node
  attributes : List Attribute
  foreignKeys : List ForeignKey
  deriving DecidableEq

inductive Address
  | ofEntity (id : NodeId)
  | ofAttribute (owner id : NodeId)
  deriving DecidableEq

def Address.id : Address → NodeId
  | .ofEntity id => id
  | .ofAttribute _ id => id

def Address.isEntity : Address → Bool
  | .ofEntity _ => true
  | .ofAttribute _ _ => false

def modifyFirst {α : Type} (p : α → Bool) (f : α → α) : List α → List α
  | [] => []
  | a :: as => if p a then f a :: as else a :: modifyFirst p f as

theorem modifyFirst_eq_self {α : Type} {p : α → Bool} (f : α → α) {as : List α}
    (h : as.find? p = none) : modifyFirst p f as = as := by
  induction as with
  | nil => rfl
  | cons a as ih =>
    simp only [List.find?_cons] at h
    split at h
    · simp at h
    · next hp => simp [modifyFirst, hp, ih h]

def Entity.address (e : Entity) : Address :=
  .ofEntity e.node.id

def Attribute.address (a : Attribute) : Address :=
  .ofAttribute a.owner a.node.id

def Entity.hasId (id : NodeId) (e : Entity) : Bool :=
  e.node.id == id

def Attribute.hasId (id : NodeId) (a : Attribute) : Bool :=
  a.node.id == id

def Entity.modifyNode (f : Node → Node) (e : Entity) : Entity :=
  { e with node := f e.node }

def Attribute.modifyNode (f : Node → Node) (a : Attribute) : Attribute :=
  { a with node := f a.node }

def Entity.modifyAttribute (id : NodeId) (f : Node → Node) (e : Entity) : Entity :=
  { e with attributes := modifyFirst (Attribute.hasId id) (Attribute.modifyNode f) e.attributes }

def Entity.removeAttribute (id : NodeId) (e : Entity) : Entity :=
  { e with attributes := e.attributes.filter (!Attribute.hasId id ·) }

structure Diagram where
  entities : List Entity
  /-- The first number that no node has been given. -/
  nextId : NodeId
  deriving DecidableEq

namespace Diagram

def empty : Diagram :=
  ⟨[], 0⟩

def isEmpty (d : Diagram) : Bool :=
  d.entities.isEmpty

def allocate (d : Diagram) : NodeId × Diagram :=
  (d.nextId, { d with nextId := d.nextId + 1 })

def push (d : Diagram) (e : Entity) : Diagram :=
  { d with entities := d.entities ++ [e] }

def nodes (d : Diagram) : List (Address × Node) :=
  d.entities.map (fun e => (e.address, e.node)) ++
    d.entities.flatMap fun e => e.attributes.map fun a => (a.address, a.node)

def hit? (d : Diagram) (p : Point) : Option Address :=
  (d.nodes.find? fun (_, node) => node.contains p).map (·.1)

def entity? (d : Diagram) (id : NodeId) : Option Entity :=
  d.entities.find? (Entity.hasId id)

def node? (d : Diagram) : Address → Option Node
  | .ofEntity id => (d.entity? id).map (·.node)
  | .ofAttribute owner id => do
    let e ← d.entity? owner
    (e.attributes.find? (Attribute.hasId id)).map (·.node)

def holds (d : Diagram) (address : Address) : Bool :=
  (d.node? address).isSome

def modify (d : Diagram) (address : Address) (f : Node → Node) : Diagram :=
  match address with
  | .ofEntity id =>
    { d with entities := modifyFirst (Entity.hasId id) (Entity.modifyNode f) d.entities }
  | .ofAttribute owner id =>
    { d with entities := modifyFirst (Entity.hasId owner) (Entity.modifyAttribute id f) d.entities }

/-- Takes out an entity with its attributes, or an attribute from its owner. Foreign keys that
name a removed entity stay, and lead nowhere. -/
def remove (d : Diagram) : Address → Diagram
  | .ofEntity id => { d with entities := d.entities.filter (!Entity.hasId id ·) }
  | .ofAttribute owner id =>
    { d with entities := modifyFirst (Entity.hasId owner) (Entity.removeAttribute id) d.entities }

def named? (d : Diagram) (name : String) : Option Entity :=
  d.entities.find? (·.node.name == name)

end Diagram

end SchemaSketch
