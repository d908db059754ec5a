import SchemaSketch.Decimal.Shortest
import SchemaSketch.Drawing

/-!
A surface that keeps shapes and writes them as a vector graphics document. Every scope becomes a
group with a scaling of its own.
-/
namespace SchemaSketch

inductive Picture
  | blank
  | mark (before : Picture) (mark : Mark)
  | group (before : Picture) (factor : Float) (inner : Picture)
  deriving DecidableEq

structure VectorImage where
  width : Float
  height : Float
  root : Picture
  /-- The open groups with their factors, the innermost first. -/
  openGroups : List (Float × Picture)
  deriving DecidableEq

namespace VectorImage

def blank (width height : Float) : VectorImage :=
  ⟨width, height, .blank, []⟩

def extend (f : Picture → Picture) (s : VectorImage) : VectorImage :=
  match s.openGroups with
  | [] => { s with root := f s.root }
  | (factor, inner) :: outer => { s with openGroups := (factor, f inner) :: outer }

/-- Puts the innermost open group into the one around it. A group that was erased while it was
open is no longer there to be closed. -/
def closeGroup (s : VectorImage) : VectorImage :=
  match s.openGroups with
  | [] => s
  | (factor, inner) :: outer =>
    { s with openGroups := outer }.extend fun before => .group before factor inner

instance : Surface VectorImage where
  width := width
  height := height
  resize w h s := { s with width := w, height := h }
  clear s := { s with root := .blank, openGroups := [] }
  put m := extend fun before => .mark before m
  openScope factor s := { s with openGroups := (factor, .blank) :: s.openGroups }
  closeScope := closeGroup

def property (name value : String) : String :=
  " " ++ name ++ "=\"" ++ value ++ "\""

def tag (name : String) (properties : List (String × String)) : String :=
  name ++ String.join (properties.map fun (name, value) => property name value)

def emptyElement (name : String) (properties : List (String × String)) : String :=
  "<" ++ tag name properties ++ "/>"

def openTag (name : String) (properties : List (String × String)) : String :=
  "<" ++ tag name properties ++ ">"

def closeTag (name : String) : String :=
  "</" ++ name ++ ">"

def escape (s : List Char) : List Char :=
  s.flatMap fun
    | '&' => "&amp;".toList
    | '<' => "&lt;".toList
    | '>' => "&gt;".toList
    | c => [c]

def radiusText (radius : Float) : String :=
  Decimal.text (if 0.0 < radius then radius else 0.0)

def pointText (p : Point) : String :=
  Decimal.text p.x ++ "," ++ Decimal.text p.y

def markLines : Mark → List String
  | .strokeCircle center radius =>
    [emptyElement "circle" [("cx", Decimal.text center.x), ("cy", Decimal.text center.y),
      ("fill", "none"), ("r", radiusText radius), ("stroke", "black"), ("stroke-width", "2")]]
  | .fillCircle center radius =>
    [emptyElement "circle" [("cx", Decimal.text center.x), ("cy", Decimal.text center.y),
      ("fill", "white"), ("r", radiusText radius)]]
  | .text position label =>
    [openTag "text" [("dominant-baseline", "middle"), ("fill", "black"),
      ("font-family", "Arial"), ("font-size", "12"), ("text-anchor", "middle"),
      ("x", Decimal.text position.x), ("y", Decimal.text position.y)],
      String.ofList (escape label.toList), closeTag "text"]
  | .line start finish =>
    [emptyElement "line" [("stroke", "black"), ("stroke-width", "1"),
      ("x1", Decimal.text start.x), ("x2", Decimal.text finish.x),
      ("y1", Decimal.text start.y), ("y2", Decimal.text finish.y)]]
  | .triangle a b c =>
    [emptyElement "polygon" [("fill", "black"),
      ("points", pointText a ++ " " ++ pointText b ++ " " ++ pointText c)]]

def elementLines (name : String) (properties : List (String × String)) :
    List String → List String
  | [] => [emptyElement name properties]
  | content => openTag name properties :: (content ++ [closeTag name])

def pictureLines : Picture → List String → List String
  | .blank, after => after
  | .mark before m, after => pictureLines before (markLines m ++ after)
  | .group before factor inner, after =>
    pictureLines before (elementLines "g"
      [("transform", "scale(" ++ Decimal.text factor ++ ")")] (pictureLines inner []) ++ after)

/-- A white background and the root group. Groups still open are not in the document. -/
def documentLines (s : VectorImage) : List String :=
  let background := emptyElement "rect" [("fill", "white"), ("height", "100%"), ("width", "100%")]
  let width := Decimal.text s.width
  let height := Decimal.text s.height
  elementLines "svg"
    [("height", height), ("viewBox", "0 0 " ++ width ++ " " ++ height), ("width", width),
      ("xmlns", "http://www.w3.org/2000/svg")]
    (background :: elementLines "g" [] (pictureLines s.root []))

def document (s : VectorImage) : String :=
  String.intercalate "\n" s.documentLines

end VectorImage

end SchemaSketch
