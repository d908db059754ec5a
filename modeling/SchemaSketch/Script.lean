import SchemaSketch.Geometry
import SchemaSketch.Decimal.Numeral

/-!
Scripts of pointer events, one event a line. A number sign starts a comment, and lines with
nothing else are skipped.
-/
namespace SchemaSketch

inductive ZoomDirection
  | inwards
  | outwards
  deriving DecidableEq

inductive Event
  | generate
  | release
  | press (pointer : Point)
  | move (pointer : Point)
  | delete (pointer : Point)
  | rename (pointer : Point) (name : Option String)
  | zoom (direction : ZoomDirection)
  | resize (width height : Float)
  deriving DecidableEq

structure ScriptError where
  line : Nat
  content : String
  deriving DecidableEq

def ScriptError.message (e : ScriptError) : String :=
  "event script line " ++ toString e.line ++ ": unrecognised event `" ++ e.content ++ "`"

namespace Script

open Text

def point? (s : List Char) : Option (Point × List Char) := do
  let (x, s) ← Decimal.number? s
  let s ← skip1? isBlank s
  let (y, s) ← Decimal.number? s
  some (⟨x, y⟩, s)

def wordAndPoint? (word : String) (s : List Char) : Option (Point × List Char) := do
  let s ← exactly? word.toList s
  let s ← skip1? isBlank s
  point? s

def name? (s : List Char) : Option (List Char) :=
  skip1? isBlank s

def rename? (s : List Char) : Option (Event × List Char) := do
  let (pointer, s) ← wordAndPoint? "rename" s
  match name? s with
  | some name => some (.rename pointer (some (String.ofList name)), [])
  | none => some (.rename pointer none, s)

def direction? (s : List Char) : Option (ZoomDirection × List Char) :=
  ((exactly? "in".toList s).map (.inwards, ·)).or ((exactly? "out".toList s).map (.outwards, ·))

def zoom? (s : List Char) : Option (Event × List Char) := do
  let s ← exactly? "zoom".toList s
  let s ← skip1? isBlank s
  let (direction, s) ← direction? s
  some (.zoom direction, s)

def eventStart? (s : List Char) : Option (Event × List Char) :=
  ((exactly? "generate".toList s).map (.generate, ·))
    |>.or ((exactly? "release".toList s).map (.release, ·))
    |>.or ((wordAndPoint? "press" s).map fun (p, r) => (.press p, r))
    |>.or ((wordAndPoint? "move" s).map fun (p, r) => (.move p, r))
    |>.or ((wordAndPoint? "delete" s).map fun (p, r) => (.delete p, r))
    |>.or (rename? s)
    |>.or (zoom? s)
    |>.or ((wordAndPoint? "resize" s).map fun (p, r) => (.resize p.x p.y, r))

def event? (content : List Char) : Option Event :=
  match eventStart? content with
  | some (event, rest) => if rest.all isBlank then some event else none
  | none => none

def content (line : List Char) : List Char :=
  trim (line.takeWhile (· ≠ '#'))

def eventsFrom (number : Nat) : List (List Char) → Except ScriptError (List Event)
  | [] => .ok []
  | line :: lines =>
    let said := content line
    if said.isEmpty then eventsFrom (number + 1) lines
    else
      match event? said with
      | none => .error ⟨number, String.ofList said⟩
      | some event => (eventsFrom (number + 1) lines).map (event :: ·)

def events (script : String) : Except ScriptError (List Event) :=
  eventsFrom 1 (lines script.toList)

end Script

end SchemaSketch
