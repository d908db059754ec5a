/-!
TOML documents as trees, and the rules by which headers and dotted keys add to them.
-/
namespace SchemaSketch.Toml

/-- How a table came about. A table that a longer header implies may still get a header of its
own; a table that dotted keys made may get more dotted keys; an inline table is complete. -/
inductive Origin
  | header
  | implied
  | dotted
  | inline
  deriving DecidableEq

inductive Value
  | string (text : String)
  | integer (n : Int)
  | float (x : Float)
  /-- A number that no type of number holds. -/
  | outOfRange
  | boolean (b : Bool)
  | moment
  | array (items : List Value)
  | table (origin : Origin) (entries : List (String × Value))
  /-- The tables of an array that double brackets extend, the last one last. -/
  | tables (elements : List Value)

abbrev Entries := List (String × Value)

def lookup? (key : String) : Entries → Option Value
  | [] => none
  | (k, v) :: entries => if k = key then some v else lookup? key entries

def insert (key : String) (value : Value) : Entries → Entries
  | [] => [(key, value)]
  | (k, v) :: entries =>
    if k = key then (k, value) :: entries else (k, v) :: insert key value entries

def updateLast? (f : Value → Option Value) : List Value → Option (List Value)
  | [] => none
  | [v] => (f v).map ([·])
  | v :: w :: rest => (updateLast? f (w :: rest)).map (v :: ·)

/-- Changes the value at the end of a path of tables. Missing tables are made on the way; an array
of tables stands for its last one. Keys may not reach into inline tables, and dotted keys not into
tables with a header. -/
def updateAt? (dotted : Bool) (f : Value → Option Value) : List String → Value → Option Value
  | [], v => f v
  | key :: path, v =>
    match v with
    | .table origin entries =>
      match lookup? key entries with
      | none => do
        let child ← updateAt? dotted f path (.table (if dotted then .dotted else .implied) [])
        some (.table origin (insert key child entries))
      | some (.table childOrigin children) =>
        if childOrigin = .inline ∨ (dotted ∧ childOrigin = .header) then none
        else do
          let child ← updateAt? dotted f path (.table childOrigin children)
          some (.table origin (insert key child entries))
      | some (.tables elements) => do
        let elements ← updateLast? (updateAt? dotted f path) elements
        some (.table origin (insert key (.tables elements) entries))
      | some _ => none
    | _ => none

/-- Adds a value under a key that must be new. Under a dotted key the table has to be one that
dotted keys made, and under a plain key it must not. -/
def assignIn? (plain : Bool) (key : String) (value : Value) : Value → Option Value
  | .table origin entries =>
    if (origin = .dotted) = plain ∨ (lookup? key entries).isSome then none
    else some (.table origin (insert key value entries))
  | _ => none

def openIn? (key : String) : Value → Option Value
  | .table origin entries =>
    match lookup? key entries with
    | none => some (.table origin (insert key (.table .header []) entries))
    | some (.table .implied children) =>
      some (.table origin (insert key (.table .header children) entries))
    | some _ => none
  | _ => none

def extendIn? (key : String) : Value → Option Value
  | .table origin entries =>
    match lookup? key entries with
    | none => some (.table origin (insert key (.tables [.table .header []]) entries))
    | some (.tables elements) =>
      some (.table origin (insert key (.tables (elements ++ [.table .header []])) entries))
    | some _ => none
  | _ => none

inductive Statement
  | header (path : List String) (key : String)
  | arrayHeader (path : List String) (key : String)
  | assign (path : List String) (key : String) (value : Value)

def assign? (path : List String) (key : String) (value v : Value) : Option Value :=
  updateAt? true (assignIn? path.isEmpty key value) path v

def addStatements? (current : List String) : List Statement → Value → Option Value
  | [], root => some root
  | .header path key :: rest, root => do
    let root ← updateAt? false (openIn? key) path root
    addStatements? (path ++ [key]) rest root
  | .arrayHeader path key :: rest, root => do
    let root ← updateAt? false (extendIn? key) path root
    addStatements? (path ++ [key]) rest root
  | .assign path key value :: rest, root => do
    let root ← updateAt? false (assign? path key value) current root
    addStatements? current rest root

def ofStatements? (statements : List Statement) : Option Value :=
  addStatements? [] statements (.table .header [])

def inlineTable? : List (List String × String × Value) → Value → Option Value
  | [], v => some v
  | (path, key, value) :: rest, v => do
    let v ← assign? path key value v
    inlineTable? rest v

end SchemaSketch.Toml
