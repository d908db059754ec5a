import SchemaSketch.Frame
import SchemaSketch.Proofs.Surface.Ink
import SchemaSketch.Surface.Recording
import SchemaSketch.Surface.VectorImage

/-!
Frames on the three surfaces. A frame takes nothing over from what a surface held before: it looks
as it would on a fresh surface of the same kind and size.
-/
namespace SchemaSketch

theorem Drawing.on_ofMarks {σ : Type} [Surface σ] (marks : List Mark) (s : σ) :
    (Drawing.ofMarks marks).on s = marks.foldl (fun s m => Surface.put m s) s := by
  induction marks generalizing s with
  | nil => rfl
  | cons m marks ih => exact ih (Surface.put m s)

theorem Frame.on_drawing {σ : Type} [Surface σ] (arrowLength zoom : Float) (d : Diagram) (s : σ) :
    (drawing arrowLength zoom d).on s =
      Surface.closeScope ((marks arrowLength d).foldl (fun s m => Surface.put m s)
        (Surface.openScope zoom (Surface.clear s))) := by
  simp only [drawing, Drawing.on, Drawing.on_ofMarks]

/-- How a surface is started afresh in the size it has, and what of it shows. The laws say that
frames and new sizes leave a usable surface usable, and that a frame shows what it would show on
the fresh one. -/
structure Renewal (σ ν : Type) [Surface σ] where
  view : σ → ν
  fresh : σ → σ
  Usable : σ → Prop
  usable_resize : ∀ {s}, Usable s → ∀ width height, Usable (Surface.resize width height s)
  usable_frame : ∀ {s}, Usable s → ∀ arrowLength zoom d,
    Usable ((Frame.drawing arrowLength zoom d).on s)
  fresh_frame : ∀ {s}, Usable s → ∀ arrowLength zoom d,
    fresh ((Frame.drawing arrowLength zoom d).on s) = fresh s
  view_frame : ∀ {s}, Usable s → ∀ arrowLength zoom d,
    view ((Frame.drawing arrowLength zoom d).on s) =
      view ((Frame.drawing arrowLength zoom d).on (fresh s))

namespace Recording

theorem foldl_put (marks : List Mark) (s : Recording) :
    marks.foldl (fun s m => Surface.put m s) s =
      { s with commands := s.commands ++ (marks.map Command.mark).toArray } := by
  induction marks generalizing s with
  | nil => simp
  | cons m marks ih =>
    rw [List.foldl_cons, ih]
    simp [Surface.put, add]

theorem on_frame (arrowLength zoom : Float) (d : Diagram) (s : Recording) :
    (Frame.drawing arrowLength zoom d).on s =
      ⟨s.width, s.height,
        (#[Command.clear, .pushScale zoom] ++
          ((Frame.marks arrowLength d).map Command.mark).toArray).push .popScale,
        s.frames + 1⟩ := by
  rw [Frame.on_drawing, foldl_put]
  rfl

def renewal : Renewal Recording (Array Command) where
  view := commands
  fresh s := blank s.width s.height
  Usable _ := True
  usable_resize _ _ _ := trivial
  usable_frame _ _ _ _ := trivial
  fresh_frame _ _ _ _ := by rw [on_frame]
  view_frame _ _ _ _ := by rw [on_frame, on_frame]

end Recording

namespace VectorImage

theorem foldl_put (marks : List Mark) (s : VectorImage) (factor : Float) (inner : Picture)
    (outer : List (Float × Picture)) :
    marks.foldl (fun s m => Surface.put m s) { s with openGroups := (factor, inner) :: outer } =
      { s with openGroups := (factor, marks.foldl Picture.mark inner) :: outer } := by
  induction marks generalizing inner with
  | nil => rfl
  | cons m marks ih => exact ih (.mark inner m)

theorem on_frame (arrowLength zoom : Float) (d : Diagram) (s : VectorImage) :
    (Frame.drawing arrowLength zoom d).on s =
      ⟨s.width, s.height,
        .group .blank zoom ((Frame.marks arrowLength d).foldl Picture.mark .blank), []⟩ := by
  rw [Frame.on_drawing]
  exact congrArg Surface.closeScope (foldl_put (Frame.marks arrowLength d)
    { s with root := .blank, openGroups := [] } zoom .blank [])

def renewal : Renewal VectorImage VectorImage where
  view := id
  fresh s := blank s.width s.height
  Usable _ := True
  usable_resize _ _ _ := trivial
  usable_frame _ _ _ _ := trivial
  fresh_frame _ _ _ _ := by rw [on_frame]
  view_frame _ _ _ _ := by rw [on_frame, on_frame]; rfl

end VectorImage

namespace TextImage

structure Usable (s : TextImage) : Prop where
  scales_eq : s.scales = []
  cellSize_pos : 0.0 < s.cellSize

theorem usable_blank (width height cellSize : Float) : (blank width height cellSize).Usable := by
  refine ⟨rfl, ?_⟩
  simp only [blank]
  split
  · assumption
  · decide

/-- Whatever is drawn, a scope that was opened is closed again, and cells keep their size. -/
theorem scales_cellSize_on (d : Drawing) (s : TextImage) :
    (d.on s).scales = s.scales ∧ (d.on s).cellSize = s.cellSize := by
  induction d generalizing s with
  | done => exact ⟨rfl, rfl⟩
  | clear d ih => exact ih _
  | resize w h d ih => exact ih _
  | mark m d ih =>
    obtain ⟨grid, hg⟩ := inked_put m s
    have h := ih (Surface.put m s)
    rw [hg] at h
    simpa only [Drawing.on, hg] using h
  | scope factor inner d ihInner ih =>
    have hi := ihInner (Surface.openScope factor s)
    have h := ih (Surface.closeScope (inner.on (Surface.openScope factor s)))
    constructor
    · exact h.1.trans (congrArg List.tail hi.1)
    · exact h.2.trans hi.2

theorem Usable.on {s : TextImage} (h : s.Usable) (d : Drawing) : (d.on s).Usable := by
  obtain ⟨hs, hc⟩ := scales_cellSize_on d s
  exact ⟨hs.trans h.scales_eq, hc.symm ▸ h.cellSize_pos⟩

theorem inked_frame (arrowLength zoom : Float) (d : Diagram) (s : TextImage) :
    Inked s ((Frame.drawing arrowLength zoom d).on s) := by
  rw [Frame.on_drawing]
  obtain ⟨grid, hg⟩ := inked_foldl (fun t m => inked_put m t)
    (Surface.openScope zoom (Surface.clear s)) (Frame.marks arrowLength d)
  rw [hg]
  exact ⟨grid, rfl⟩

theorem Usable.blank_eq {s : TextImage} (h : s.Usable) :
    blank s.width s.height s.cellSize =
      { s with grid := emptyGrid s.width s.height s.cellSize } := by
  simp only [blank, h.cellSize_pos, if_true, h.scales_eq]

def renewal : Renewal TextImage TextImage where
  view := id
  fresh s := blank s.width s.height s.cellSize
  Usable := Usable
  usable_resize h _ _ := ⟨h.scales_eq, h.cellSize_pos⟩
  usable_frame h _ _ _ := h.on _
  fresh_frame _ arrowLength zoom d := by
    obtain ⟨grid, hg⟩ := inked_frame arrowLength zoom d _
    rw [hg]
  view_frame h _ _ _ := by
    rw [h.blank_eq]
    rfl

end TextImage

end SchemaSketch
