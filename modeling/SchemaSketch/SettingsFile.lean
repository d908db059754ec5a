import SchemaSketch.Settings
import SchemaSketch.Toml.Document

/-!
Reading settings from a TOML document. Every section and every value may be left out; a section
may also be an array of its values in their order. What no setting is named after is ignored.
-/
namespace SchemaSketch.SettingsFile

open Toml

mutual

def isReadable : Value → Bool
  | .outOfRange => false
  | .array items => areReadable items
  | .table _ entries => areReadableEntries entries
  | .tables elements => areReadable elements
  | _ => true

def areReadable : List Value → Bool
  | [] => true
  | v :: vs => isReadable v && areReadable vs

def areReadableEntries : List (String × Value) → Bool
  | [] => true
  | (_, v) :: entries => isReadable v && areReadableEntries entries

end

/-- The values of a section, one for each name or none where it is left out. A date stands for a
section without any of them. -/
def fields? (names : List String) : Value → Option (List (Option Value))
  | .table _ entries =>
    if (entries.filter fun (key, _) => !names.contains key).all fun (_, v) => isReadable v then
      some (names.map (lookup? · entries))
    else none
  | .array items => some ((List.range names.length).map (items[·]?))
  | .tables elements => some ((List.range names.length).map (elements[·]?))
  | .moment => some (names.map fun _ => none)
  | _ => none

def number? (standard : Float) : Option (Option Value) → Option Float
  | some (some (.float x)) => some x
  | some (some (.integer n)) =>
    if -Int.pow 2 63 ≤ n ∧ n < Int.pow 2 64 then some (Float.ofInt n) else none
  | some (some _) => none
  | _ => some standard

def flag? (standard : Bool) : Option (Option Value) → Option Bool
  | some (some (.boolean b)) => some b
  | some (some _) => none
  | _ => some standard

def part? {α : Type} (names : List String) (standard : α)
    (read? : List (Option Value) → Option α) : Option Value → Option α
  | none => some standard
  | some v => (fields? names v).bind read?

def canvas? : Option Value → Option CanvasSettings :=
  part? ["width", "height"] .standard fun v => do
    let width ← number? CanvasSettings.standard.width v[0]?
    let height ← number? CanvasSettings.standard.height v[1]?
    some ⟨width, height⟩

def layout? : Option Value → Option LayoutSettings :=
  part? ["entity_radius", "attribute_radius"] .standard fun v => do
    let entityRadius ← number? LayoutSettings.standard.entityRadius v[0]?
    let attributeRadius ← number? LayoutSettings.standard.attributeRadius v[1]?
    some ⟨entityRadius, attributeRadius⟩

def drawing? : Option Value → Option DrawingSettings :=
  part? ["arrow_head_length", "cell_size"] .standard fun v => do
    let arrowLength ← number? DrawingSettings.standard.arrowLength v[0]?
    let cellSize ← number? DrawingSettings.standard.cellSize v[1]?
    some ⟨arrowLength, cellSize⟩

def interaction? : Option Value → Option InteractionSettings :=
  part? ["resize_tolerance", "zoom_step", "min_zoom", "max_zoom", "confirm_deletes"]
    .standard fun v => do
    let standard := InteractionSettings.standard
    let rimTolerance ← number? standard.rimTolerance v[0]?
    let zoomStep ← number? standard.zoomStep v[1]?
    let minZoom ← number? standard.minZoom v[2]?
    let maxZoom ← number? standard.maxZoom v[3]?
    let confirmDeletes ← flag? standard.confirmDeletes v[4]?
    some ⟨rimTolerance, zoomStep, minZoom, maxZoom, confirmDeletes⟩

def settings? (text : String) : Option Settings := do
  let root ← document? text
  let sections ← fields? ["canvas", "layout", "render", "interaction"] root
  let canvas ← canvas? (sections[0]?.join)
  let layout ← layout? (sections[1]?.join)
  let drawing ← drawing? (sections[2]?.join)
  let interaction ← interaction? (sections[3]?.join)
  some ⟨canvas, layout, drawing, interaction⟩

end SchemaSketch.SettingsFile
