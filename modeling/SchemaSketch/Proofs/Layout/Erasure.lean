import SchemaSketch.Editor
import SchemaSketch.Proofs.Layout.Numbering
import SchemaSketch.Proofs.Surface.Renewal

/-!
What a layout adds to a schema. Without numbers and places its entities are the tables again, and
without places it is the same on surfaces of all sizes. So an editor that has just read a text holds
the tables of that text, and its frame is labelled with their names.
-/
namespace SchemaSketch

def Attribute.column (a : Attribute) : Column :=
  ⟨a.node.name, a.dataType, a.primaryKey⟩

def Entity.table (e : Entity) : Table :=
  ⟨e.node.name, e.attributes.map Attribute.column, e.foreignKeys⟩

def Node.unplaced (node : Node) : Node :=
  { node with center := .zero, radius := 0.0 }

def Entity.unplaced (e : Entity) : Entity :=
  ⟨e.node.unplaced, e.attributes.map (Attribute.modifyNode Node.unplaced), e.foreignKeys⟩

def Table.names (t : Table) : List String :=
  t.name :: t.columns.map Column.name

namespace Diagram

def tables (d : Diagram) : List Table :=
  d.entities.map Entity.table

def unplaced (d : Diagram) : Diagram :=
  { d with entities := d.entities.map Entity.unplaced }

def Sized (settings : LayoutSettings) (d : Diagram) : Prop :=
  ∀ e ∈ d.entities, e.node.radius = settings.entityRadius ∧
    ∀ a ∈ e.attributes, a.node.radius = settings.attributeRadius

end Diagram

namespace Layout

variable (settings : LayoutSettings)

section Attributes

variable (owner : NodeId) (center : Point) (ring : Float) (count index : Nat)
  (columns : List Column)

theorem columns_attributesFrom :
    (attributesFrom settings owner center ring count index columns).map Attribute.column =
      columns := by
  induction columns generalizing index with
  | nil => rfl
  | cons column columns ih => exact congrArg (column :: ·) (ih (index + 1))

theorem radius_of_mem_attributesFrom :
    ∀ a ∈ attributesFrom settings owner center ring count index columns,
      a.node.radius = settings.attributeRadius := by
  induction columns generalizing index with
  | nil => exact nofun
  | cons column columns ih => exact List.forall_mem_cons.2 ⟨rfl, ih (index + 1)⟩

theorem unplaced_attributesFrom (settings' : LayoutSettings) (center' : Point) (ring' : Float) :
    (attributesFrom settings owner center ring count index columns).map
        (Attribute.modifyNode Node.unplaced) =
      (attributesFrom settings' owner center' ring' count index columns).map
        (Attribute.modifyNode Node.unplaced) := by
  induction columns generalizing index with
  | nil => rfl
  | cons column columns ih =>
    simp only [attributesFrom, List.map_cons, ih (index + 1), Attribute.modifyNode, Node.unplaced]

end Attributes

section Entities

variable (middle : Point) (ring : Float) (count index : Nat) (id : NodeId) (tables : List Table)

theorem tables_entitiesFrom :
    (entitiesFrom settings middle ring count index id tables).1.map Entity.table = tables := by
  induction tables generalizing index id with
  | nil => rfl
  | cons table tables ih =>
    simp only [entitiesFrom, List.map_cons, ih, Entity.table, entity, columns_attributesFrom]

theorem radius_of_mem_entitiesFrom :
    ∀ e ∈ (entitiesFrom settings middle ring count index id tables).1,
      e.node.radius = settings.entityRadius ∧
        ∀ a ∈ e.attributes, a.node.radius = settings.attributeRadius := by
  induction tables generalizing index id with
  | nil => exact nofun
  | cons table tables ih =>
    refine List.forall_mem_cons.2 ⟨⟨rfl, ?_⟩, ih _ _⟩
    exact radius_of_mem_attributesFrom settings id _ _ _ _ _

theorem unplaced_entitiesFrom (settings' : LayoutSettings) (middle' : Point) (ring' : Float) :
    (entitiesFrom settings middle ring count index id tables).1.map Entity.unplaced =
      (entitiesFrom settings' middle' ring' count index id tables).1.map Entity.unplaced := by
  induction tables generalizing index id with
  | nil => rfl
  | cons table tables ih =>
    simp only [entitiesFrom, List.map_cons, ih, Entity.unplaced, entity, Node.unplaced]
    rw [unplaced_attributesFrom]

theorem next_entitiesFrom (settings' : LayoutSettings) (middle' : Point) (ring' : Float) :
    (entitiesFrom settings middle ring count index id tables).2 =
      (entitiesFrom settings' middle' ring' count index id tables).2 := by
  induction tables generalizing index id with
  | nil => rfl
  | cons table tables ih => exact ih (index + 1) (id + 1 + table.columns.length)

end Entities

variable (width height : Float) (tables : List Table)

theorem tables_radial : (radial settings width height tables).tables = tables :=
  tables_entitiesFrom settings _ _ _ _ _ _

theorem sized_radial : (radial settings width height tables).Sized settings :=
  radius_of_mem_entitiesFrom settings _ _ _ _ _ _

theorem ids_radial_length :
    (radial settings width height tables).ids =
      List.range (radial settings width height tables).ids.length := by
  rw [ids_radial, List.length_range]

theorem unplaced_radial (settings' : LayoutSettings) (width' height' : Float) :
    (radial settings width height tables).unplaced =
      (radial settings' width' height' tables).unplaced := by
  simp only [Diagram.unplaced, radial, Diagram.mk.injEq]
  constructor
  · exact unplaced_entitiesFrom settings _ _ _ _ _ _ settings' _ _
  · exact next_entitiesFrom settings _ _ _ _ _ _ settings' _ _

end Layout

section Labels

def Mark.label? : Mark → Option String
  | .text _ label => some label
  | _ => none

theorem Frame.labels_nodeMarks (node : Node) :
    (nodeMarks node).filterMap Mark.label? = [node.name] :=
  rfl

theorem Frame.labels_edgeMarks (arrowLength : Float) (source target : Node) :
    (edgeMarks arrowLength source target).filterMap Mark.label? = [] :=
  rfl

theorem Frame.labels_entityMarks (e : Entity) :
    (entityMarks e).filterMap Mark.label? = e.table.names := by
  simp only [entityMarks, List.filterMap_append, labels_nodeMarks, List.filterMap_flatMap,
    Table.names, Entity.table, List.map_map, List.singleton_append]
  exact congrArg (e.node.name :: ·) List.map_eq_flatMap.symm

/-- Nodes are labelled in the order of the tables, edges not at all. -/
theorem Frame.labels_marks (arrowLength : Float) (d : Diagram) :
    (marks arrowLength d).filterMap Mark.label? = d.tables.flatMap Table.names := by
  have howned (e : Entity) : (ownershipMarks arrowLength e).filterMap Mark.label? = [] := by
    simp [ownershipMarks, List.filterMap_flatMap, labels_edgeMarks]
  have hkeys (e : Entity) : (foreignKeyMarks arrowLength d e).filterMap Mark.label? = [] := by
    simp only [foreignKeyMarks, List.filterMap_flatMap, List.flatMap_eq_nil_iff]
    intro key _
    split
    · exact labels_edgeMarks arrowLength _ _
    · rfl
  simp [marks, List.filterMap_flatMap, labels_entityMarks, howned, hkeys, Diagram.tables,
    List.flatMap_map]

theorem Recording.texts_frame (arrowLength zoom : Float) (d : Diagram) (s : Recording) :
    ((Frame.drawing arrowLength zoom d).on s).texts = d.tables.flatMap Table.names := by
  rw [← Frame.labels_marks arrowLength, on_frame, texts]
  simp only [Array.toList_push, Array.toList_append, List.filterMap_append, List.filterMap_map,
    List.filterMap_cons_none, List.filterMap_nil, List.append_nil, List.nil_append]
  congr
  funext m
  cases m <;> rfl

end Labels

section Editors

variable {σ : Type} [Surface σ]

theorem Editor.tables_generate (e : Editor σ) (source : String) :
    (e.generate source).diagram.tables = Schema.ofText source :=
  Layout.tables_radial _ _ _ _

theorem Editor.texts_generate (e : Editor Recording) (source : String) :
    (e.generate source).surface.texts = (Schema.ofText source).flatMap Table.names := by
  rw [← tables_generate e source]
  exact Recording.texts_frame _ _ _ e.surface

end Editors

/-- A layout of tables shows these tables, none of them twice and none left out, whatever numbers
the surface size and the settings are. Met entity by entity, each followed by its attributes, the
nodes are numbered from zero without a gap; attributes name the entity they stand in as their owner;
the radii are those of the settings; and only the places depend on the size. So an editor that
generates from a text has a diagram of the tables read from it, and the labels of the frame on a
recording are the names in these tables. -/
theorem Layout.radial_keeps_schema (settings : LayoutSettings) (width height : Float)
    (tables : List Table) :
    let d := radial settings width height tables
    d.tables = tables ∧ d.ids = List.range d.ids.length ∧
      (∀ e ∈ d.entities, ∀ a ∈ e.attributes, a.owner = e.node.id) ∧ d.Sized settings ∧
      (∀ settings' width' height',
        (radial settings' width' height' tables).unplaced = d.unplaced) ∧
      (∀ (σ : Type) [Surface σ] (e : Editor σ) (source : String),
        ∃ e', e.step (.generate source) = .ok (e', .silent) ∧
          e'.diagram.tables = Schema.ofText source) ∧
      ∀ (e : Editor Recording) (source : String),
        (e.generate source).surface.texts = (Schema.ofText source).flatMap Table.names := by
  intro d
  refine ⟨tables_radial settings width height tables,
    ids_radial_length settings width height tables,
    (wellFormed_radial settings width height tables).owner_eq,
    sized_radial settings width height tables, fun settings' width' height' => ?_,
    fun σ _ e source => ?_, Editor.texts_generate⟩
  · exact unplaced_radial settings' width' height' tables settings width height
  · exact ⟨e.generate source, rfl, e.tables_generate source⟩

end SchemaSketch
