import SchemaSketch.Schema
import SchemaSketch.Text.Reader

/-!
The body of a table: the entries between its commas, and the column that an entry declares.
-/
namespace SchemaSketch.Schema

open Text

def consHead (c : Char) : List (List Char) → List (List Char)
  | [] => [[c]]
  | piece :: pieces => (c :: piece) :: pieces

def cutAtCommas (depth : Nat) : List Char → List (List Char)
  | [] => [[]]
  | c :: s =>
    if c = '(' then consHead c (cutAtCommas (depth + 1) s)
    else if c = ')' then consHead c (cutAtCommas (depth - 1) s)
    else if c = ',' ∧ depth = 0 then [] :: cutAtCommas 0 s
    else consHead c (cutAtCommas depth s)

def entries (body : List Char) : List (List Char) :=
  ((cutAtCommas 0 body).map trim).filter (!·.isEmpty)

structure Entry where
  name : List Char
  dataType : List Char
  primaryKey : Bool
  reference : Option (List Char × List Char)

def isWordChar (c : Char) : Bool :=
  !isSpace c

def isTableNameChar (c : Char) : Bool :=
  !(isSpace c || c == '(')

def isTargetChar (c : Char) : Bool :=
  !(isSpace c || c == ')')

def primaryKey? (s : List Char) : Option (List Char) := do
  let s ← skip1? isGap s
  let s ← keyword? "PRIMARY".toList s
  let s ← skip1? isGap s
  keyword? "KEY".toList s

def reference? (s : List Char) : Option (List Char × List Char) := do
  let s ← skip1? isGap s
  let s ← keyword? "REFERENCES".toList s
  let s ← skip1? isGap s
  let (table, s) ← run1? isTableNameChar s
  let s ← exactly? ['('] (s.dropWhile isGap)
  let (target, s) ← run1? isTargetChar (s.dropWhile isGap)
  let _ ← exactly? [')'] (s.dropWhile isGap)
  some (table, target)

/-- Reads an entry. It needs a name and a type; what comes after them and is neither of the two
marks is passed over. -/
def entryOf? (s : List Char) : Option Entry := do
  let (name, s) ← run1? isWordChar (s.dropWhile isGap)
  let s ← skip1? isGap s
  let (dataType, s) ← run1? isWordChar s
  match primaryKey? s with
  | some s => some ⟨name, dataType, true, reference? s⟩
  | none => some ⟨name, dataType, false, reference? s⟩

def Entry.isConstraint (e : Entry) : Bool :=
  e.name.map Char.toUpper == "PRIMARY".toList

def Entry.column? (e : Entry) : Option Column :=
  if e.isConstraint then none
  else some ⟨String.ofList e.name, String.ofList e.dataType, e.primaryKey⟩

def Entry.foreignKey? (e : Entry) : Option ForeignKey :=
  e.reference.map fun (table, target) =>
    ⟨String.ofList e.name, String.ofList table, String.ofList target⟩

def table (name body : List Char) : Table :=
  let declared := (entries body).filterMap entryOf?
  ⟨String.ofList name, declared.filterMap Entry.column?, declared.filterMap Entry.foreignKey?⟩

end SchemaSketch.Schema
