import SchemaSketch.Proofs.Schema.Parentheses
import SchemaSketch.Proofs.Text.Languages

/-!
The grammar of schemas. A text falls into clauses and the gaps between them, and every clause
denotes one table; nothing here reads a text.
-/
namespace SchemaSketch.Schema

open Text

def gap : Language Char :=
  oneOrMore isGap

def spacing : Language Char :=
  zeroOrMore isGap

def keyMark : Language Char :=
  gap * word "PRIMARY" * gap * word "KEY"

def referenceMark (table target : List Char) : Language Char :=
  gap * word "REFERENCES" * gap * longest isTableNameChar table
    (spacing * {['(']} * spacing * longest isTargetChar target (spacing * {[')']}))

/-- A reference is taken whenever it is there, and anything may follow. -/
def afterKey : Option (List Char × List Char) → Language Char
  | some (table, target) => referenceMark table target * ⊤
  | none => {s | ∀ table target, s ∉ referenceMark table target * ⊤}

def afterType (primaryKey : Bool) (reference : Option (List Char × List Char)) : Language Char :=
  if primaryKey then keyMark * afterKey reference else afterKey reference - keyMark * ⊤

def declaration (e : Entry) : Language Char :=
  longest isWordChar e.name (gap * longest isWordChar e.dataType
    (afterType e.primaryKey e.reference))

def keysOf (e : Entry) : List ForeignKey :=
  match e.reference with
  | some (table, target) =>
    [⟨String.ofList e.name, String.ofList table, String.ofList target⟩]
  | none => []

/-- What the pieces of a body declare, piece by piece. A piece that is no declaration, a blank one
for example, gives nothing. A constraint gives no column, but its reference counts. -/
inductive Declares : List (List Char) → List Column → List ForeignKey → Prop
  | nil : Declares [] [] []
  | other {p : List Char} {ps : List (List Char)} {cs : List Column} {ks : List ForeignKey} :
      (∀ e, trim p ∉ declaration e) → Declares ps cs ks → Declares (p :: ps) cs ks
  | constraint {e : Entry} {p : List Char} {ps : List (List Char)} {cs : List Column}
      {ks : List ForeignKey} :
      trim p ∈ declaration e → e.name ∈ word "PRIMARY" → Declares ps cs ks →
        Declares (p :: ps) cs (keysOf e ++ ks)
  | column {e : Entry} {p : List Char} {ps : List (List Char)} {cs : List Column}
      {ks : List ForeignKey} :
      trim p ∈ declaration e → e.name ∉ word "PRIMARY" → Declares ps cs ks →
        Declares (p :: ps)
          (⟨String.ofList e.name, String.ofList e.dataType, e.primaryKey⟩ :: cs) (keysOf e ++ ks)

def condition : Language Char :=
  word "IF" * gap * word "NOT" * gap * word "EXISTS" * gap

def bracketed (body : List Char) : Language Char :=
  {s | Balanced body ∧ '(' :: body ++ [')'] = s}

def clause (name body : List Char) : Language Char :=
  word "CREATE" * gap * word "TABLE" * gap *
    optionally condition (longest isTableNameChar name (spacing * bracketed body))

def Denotes (c : List Char) (t : Table) : Prop :=
  ∃ name body pieces, c ∈ clause name body ∧ IsCut body pieces ∧
    t.name = String.ofList name ∧ Declares pieces t.columns t.foreignKeys

inductive Factorisation where
  | last (gap : List Char)
  | next (gap clause : List Char) (rest : Factorisation)

namespace Factorisation

def text : Factorisation → List Char
  | last g => g
  | next g c f => g ++ (c ++ f.text)

def clauses : Factorisation → List (List Char)
  | last _ => []
  | next _ c f => c :: f.clauses

end Factorisation

/-- No clause begins inside the gap; one that begins there could end behind it. -/
def Barren (g behind : List Char) : Prop :=
  ∀ u v name body, g = u ++ v → v ≠ [] → v ++ behind ∉ clause name body * ⊤

/-- What is marked are clauses, and none begins anywhere between them. -/
def Factorisation.Valid : Factorisation → Prop
  | last g => Barren g []
  | next g c f => Barren g (c ++ f.text) ∧ (∃ name body, c ∈ clause name body) ∧ f.Valid

end SchemaSketch.Schema
