import SchemaSketch.Layout
import SchemaSketch.Proofs.Safety.Slices

/-!
The radial layout with numbers of 32 bits, given to one node after the other. They last for fewer
than 2 ^ 32 nodes, and the layout is then the one of `Layout.radial`.
-/
namespace SchemaSketch.Guarded

open Layout

def allocate (id : Nat) : Except Breach Nat :=
  if id + 1 < 2 ^ 32 then .ok (id + 1) else .error .numbersUsedUp

def attributesFrom (settings : LayoutSettings) (owner : Nat) (center : Point) (ring : Float)
    (count index : Nat) (next : Nat) : List Column → Except Breach (List Attribute × Nat)
  | [] => .ok ([], next)
  | column :: columns => do
    let beyond ← allocate next
    let first : Attribute :=
      { node :=
          { id := next
            name := column.name
            center := center.onCircle ring (spokeAngle index count)
            radius := settings.attributeRadius }
        dataType := column.dataType
        primaryKey := column.primaryKey
        owner := owner }
    let (rest, beyond) ←
      attributesFrom settings owner center ring count (index + 1) beyond columns
    .ok (first :: rest, beyond)

def entitiesFrom (settings : LayoutSettings) (middle : Point) (ring : Float) (count index : Nat)
    (id : Nat) : List Table → Except Breach (List Entity × Nat)
  | [] => .ok ([], id)
  | table :: tables => do
    let center := middle.onCircle ring (spokeAngle index count)
    let next ← allocate id
    let (attributes, next) ←
      attributesFrom settings id center (ring / 2.0) table.columns.length 0 next table.columns
    let first : Entity :=
      ⟨⟨id, table.name, center, settings.entityRadius⟩, attributes, table.foreignKeys⟩
    let (rest, next) ← entitiesFrom settings middle ring count (index + 1) next tables
    .ok (first :: rest, next)

def radial (settings : LayoutSettings) (width height : Float) (tables : List Table) :
    Except Breach Diagram := do
  let (entities, next) ← entitiesFrom settings ⟨width / 2.0, height / 2.0⟩
    (smaller width height / 2.0) tables.length 0 0 tables
  .ok ⟨entities, next⟩

def nodeCount (tables : List Table) : Nat :=
  (tables.map fun table => 1 + table.columns.length).sum

variable {settings : LayoutSettings}

theorem allocate_eq {id : Nat} (h : id + 1 < 2 ^ 32) : allocate id = .ok (id + 1) :=
  if_pos h

example : allocate 4294967295 = .error .numbersUsedUp := by decide

theorem attributesFrom_eq {owner next : Nat} {center : Point} {ring : Float} {count index : Nat}
    {columns : List Column} (hn : next = owner + 1 + index) (h : next + columns.length < 2 ^ 32) :
    attributesFrom settings owner center ring count index next columns =
      .ok (Layout.attributesFrom settings owner center ring count index columns,
        next + columns.length) := by
  induction columns generalizing index next with
  | nil => rfl
  | cons column columns ih =>
    rw [List.length_cons] at h
    have ha : allocate next = .ok (next + 1) := allocate_eq (by omega)
    have hi : next + 1 = owner + 1 + (index + 1) := by omega
    rw [attributesFrom, ha, bind_ok, ih hi (by omega), bind_ok, hn, Layout.attributesFrom,
      List.length_cons]
    simp only [Nat.add_assoc, Nat.add_comm 1]

theorem entitiesFrom_eq {middle : Point} {ring : Float} {count index : Nat} {id : Nat}
    {tables : List Table} (h : id + nodeCount tables < 2 ^ 32) :
    entitiesFrom settings middle ring count index id tables =
      .ok (Layout.entitiesFrom settings middle ring count index id tables) := by
  induction tables generalizing index id with
  | nil => rfl
  | cons table tables ih =>
    rw [nodeCount, List.map_cons, List.sum_cons, ← nodeCount] at h
    have ha : allocate id = .ok (id + 1) := allocate_eq (by omega)
    rw [entitiesFrom, ha, bind_ok, attributesFrom_eq (Nat.add_zero _).symm (by omega), bind_ok,
      Layout.entitiesFrom]
    have hrest : id + 1 + table.columns.length + nodeCount tables < 2 ^ 32 := by omega
    simp only [ih hrest, bind_ok]
    rfl

/-- Numbers of 32 bits are enough for fewer than 2 ^ 32 nodes. -/
theorem radial_eq {tables : List Table} (h : nodeCount tables < 2 ^ 32) (width height : Float) :
    radial settings width height tables = .ok (Layout.radial settings width height tables) := by
  rw [radial, entitiesFrom_eq ((Nat.zero_add _).trans_lt h)]
  rfl

end SchemaSketch.Guarded
