import SchemaSketch.Drawing

/-!
A surface that keeps the commands of the latest frame instead of drawing them.
-/
namespace SchemaSketch

inductive Command
  | clear
  | mark (mark : Mark)
  | pushScale (factor : Float)
  | popScale
  deriving DecidableEq

structure Recording where
  width : Float
  height : Float
  /-- The commands since the surface was last cleared, that one included. -/
  commands : Array Command
  /-- How often the surface was cleared. -/
  frames : Nat
  deriving DecidableEq

namespace Recording

def blank (width height : Float) : Recording :=
  ⟨width, height, #[], 0⟩

def add (c : Command) (s : Recording) : Recording :=
  { s with commands := s.commands.push c }

instance : Surface Recording where
  width := width
  height := height
  resize w h s := { s with width := w, height := h }
  clear s := { s with commands := #[.clear], frames := s.frames + 1 }
  put m := add (.mark m)
  openScope factor := add (.pushScale factor)
  closeScope := add .popScale

def texts (s : Recording) : List String :=
  s.commands.toList.filterMap fun
    | .mark (.text _ label) => some label
    | _ => none

def lines (s : Recording) : List (Point × Point) :=
  s.commands.toList.filterMap fun
    | .mark (.line start finish) => some (start, finish)
    | _ => none

def triangles (s : Recording) : List (Point × Point × Point) :=
  s.commands.toList.filterMap fun
    | .mark (.triangle a b c) => some (a, b, c)
    | _ => none

end Recording

end SchemaSketch
