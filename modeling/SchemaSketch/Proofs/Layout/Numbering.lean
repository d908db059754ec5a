import SchemaSketch.Layout
import SchemaSketch.Proofs.Diagram.Identity

/-!
The numbers that a layout gives to its nodes. Main statement: met entity by entity, each followed
by its attributes, they count up from zero without a gap.
-/
namespace SchemaSketch.Layout

variable (settings : LayoutSettings)

theorem map_id_attributesFrom (owner : NodeId) (center : Point) (ring : Float) (count index : Nat)
    (columns : List Column) :
    (attributesFrom settings owner center ring count index columns).map (·.node.id) =
      List.range' (owner + 1 + index) columns.length := by
  induction columns generalizing index with
  | nil => rfl
  | cons column columns ih =>
    simp only [attributesFrom, List.map_cons, ih, List.length_cons, List.range'_succ]
    rw [Nat.add_assoc (owner + 1)]

theorem owner_of_mem_attributesFrom {owner : NodeId} {center : Point} {ring : Float}
    {count index : Nat} {columns : List Column} {a : Attribute}
    (ha : a ∈ attributesFrom settings owner center ring count index columns) : a.owner = owner := by
  induction columns generalizing index with
  | nil => simp [attributesFrom] at ha
  | cons column columns ih =>
    obtain rfl | ha := List.mem_cons.1 ha
    · rfl
    · exact ih ha

theorem ids_entity (id : NodeId) (center : Point) (ring : Float) (table : Table) :
    (entity settings id center ring table).ids = List.range' id (1 + table.columns.length) := by
  simp only [Entity.ids, entity, map_id_attributesFrom, Nat.add_zero]
  rw [Nat.add_comm 1, List.range'_succ]

theorem ids_entitiesFrom (middle : Point) (ring : Float) (count index : Nat) (id : NodeId)
    (tables : List Table) :
    ∃ n, (entitiesFrom settings middle ring count index id tables).2 = id + n ∧
      (entitiesFrom settings middle ring count index id tables).1.flatMap Entity.ids =
        List.range' id n := by
  induction tables generalizing index id with
  | nil => exact ⟨0, rfl, rfl⟩
  | cons table tables ih =>
    obtain ⟨n, hn, hids⟩ := ih (index + 1) (id + 1 + table.columns.length)
    refine ⟨1 + table.columns.length + n, ?_, ?_⟩
    · rw [entitiesFrom, hn, Nat.add_assoc, Nat.add_assoc, ← Nat.add_assoc 1]
    · simp only [entitiesFrom, List.flatMap_cons, ids_entity, hids]
      rw [Nat.add_assoc id, List.range'_append_1]

theorem owner_of_mem_entitiesFrom {middle : Point} {ring : Float} {count index : Nat}
    {id : NodeId} {tables : List Table} {e : Entity}
    (he : e ∈ (entitiesFrom settings middle ring count index id tables).1) :
    ∀ a ∈ e.attributes, a.owner = e.node.id := by
  induction tables generalizing index id with
  | nil => simp [entitiesFrom] at he
  | cons table tables ih =>
    obtain rfl | he := List.mem_cons.1 he
    · exact fun a ha => owner_of_mem_attributesFrom settings ha
    · exact ih he

theorem ids_radial (width height : Float) (tables : List Table) :
    (radial settings width height tables).ids =
      List.range (radial settings width height tables).nextId := by
  obtain ⟨n, hn, hids⟩ := ids_entitiesFrom settings ⟨width / 2.0, height / 2.0⟩
    (smaller width height / 2.0) tables.length 0 0 tables
  rw [Nat.zero_add] at hn
  simp only [radial, Diagram.ids, hids, hn, List.range_eq_range']

theorem wellFormed_radial (width height : Float) (tables : List Table) :
    (radial settings width height tables).WellFormed := by
  refine ⟨?_, fun e he => owner_of_mem_entitiesFrom settings he⟩
  rw [ids_radial]
  exact List.nodup_range

end SchemaSketch.Layout
