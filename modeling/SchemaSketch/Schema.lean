/-!
Schemas: tables with their columns and the references between them.
-/
namespace SchemaSketch

structure Column where
  name : String
  dataType : String
  primaryKey : Bool
  deriving DecidableEq

/-- A reference from a column to a column of another table. The table is looked up by name when
it is needed, so a reference may lead nowhere. -/
structure ForeignKey where
  column : String
  table : String
  target : String
  deriving DecidableEq

structure Table where
  name : String
  columns : List Column
  foreignKeys : List ForeignKey
  deriving DecidableEq

end SchemaSketch
