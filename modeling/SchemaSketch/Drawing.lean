import SchemaSketch.Geometry

/-!
Drawings: what is put on a surface, step by step, and the surfaces that take it. A surface
multiplies the coordinates it is given by the factors of all scopes that are open.
-/
namespace SchemaSketch

inductive Mark
  | strokeCircle (center : Point) (radius : Float)
  | fillCircle (center : Point) (radius : Float)
  | text (position : Point) (label : String)
  | line (start finish : Point)
  | triangle (a b c : Point)
  deriving DecidableEq

inductive Drawing
  | done
  | clear (rest : Drawing)
  | resize (width height : Float) (rest : Drawing)
  | mark (mark : Mark) (rest : Drawing)
  | scope (factor : Float) (inner rest : Drawing)
  deriving DecidableEq

namespace Drawing

def append : Drawing → Drawing → Drawing
  | done, e => e
  | clear d, e => clear (append d e)
  | resize w h d, e => resize w h (append d e)
  | mark m d, e => mark m (append d e)
  | scope f inner d, e => scope f inner (append d e)

instance : Append Drawing := ⟨append⟩

def ofMarks (marks : List Mark) : Drawing :=
  marks.foldr mark done

end Drawing

/-- What a surface can do. Every surface knows its size, erases what it shows, takes one shape,
and opens and closes scopes. -/
class Surface (σ : Type) where
  width : σ → Float
  height : σ → Float
  resize : Float → Float → σ → σ
  clear : σ → σ
  put : Mark → σ → σ
  openScope : Float → σ → σ
  closeScope : σ → σ

def Drawing.on {σ : Type} [Surface σ] : Drawing → σ → σ
  | .done, s => s
  | .clear rest, s => rest.on (Surface.clear s)
  | .resize w h rest, s => rest.on (Surface.resize w h s)
  | .mark m rest, s => rest.on (Surface.put m s)
  | .scope factor inner rest, s =>
    rest.on (Surface.closeScope (inner.on (Surface.openScope factor s)))

end SchemaSketch
