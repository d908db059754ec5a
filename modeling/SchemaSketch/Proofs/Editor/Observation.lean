import SchemaSketch.Proofs.Editor.Relayout
import SchemaSketch.Proofs.Safety.Canvas
import SchemaSketch.Session

/-!
Editors without what their surfaces hold. A surface is never asked for anything but its size, so
that editors on surfaces of one size, whatever these are, go through the same states and fail at the
same call.
-/
namespace SchemaSketch

structure Extent where
  width : Float
  height : Float
  deriving DecidableEq

instance : Surface Extent where
  width := Extent.width
  height := Extent.height
  resize w h _ := ⟨w, h⟩
  clear s := s
  put _ s := s
  openScope _ s := s
  closeScope s := s

namespace Surface

variable {σ τ : Type} [Surface σ] [Surface τ]

def extent (s : σ) : Extent :=
  ⟨Surface.width s, Surface.height s⟩

structure TakesSize (σ : Type) [Surface σ] : Prop where
  resize : ∀ width height (s : σ), extent (Surface.resize width height s) = ⟨width, height⟩
  frame : ∀ arrowLength zoom d (s : σ), extent ((Frame.drawing arrowLength zoom d).on s) = extent s

theorem TakesSize.lockstep (hσ : TakesSize σ) (hτ : TakesSize τ) :
    Lockstep fun (s : σ) (t : τ) => extent t = extent s where
  width h := congrArg Extent.width h
  height h := congrArg Extent.height h
  resize _ width height := (hτ.resize width height _).trans (hσ.resize width height _).symm
  frame h _ _ _ := (hτ.frame _ _ _ _).trans (h.trans (hσ.frame _ _ _ _).symm)

end Surface

/-- A surface that keeps nothing but its size takes no notice of frames. -/
theorem Extent.on_frame (arrowLength zoom : Float) (d : Diagram) (s : Extent) :
    (Frame.drawing arrowLength zoom d).on s = s := by
  rw [Frame.on_drawing]
  exact List.foldl_fixed _

theorem Extent.takesSize : Surface.TakesSize Extent where
  resize _ _ _ := rfl
  frame arrowLength zoom d s := congrArg Surface.extent (on_frame arrowLength zoom d s)

theorem Renewal.Kind.takesSize {σ ν κ : Type} [Surface σ] {R : Renewal σ ν} (K : R.Kind κ) :
    Surface.TakesSize σ where
  resize width height s := by
    rw [Surface.extent, K.width_resize, K.height_resize]
  frame arrowLength zoom d s := by
    obtain ⟨hw, hh⟩ := K.keepsSize arrowLength zoom d s
    rw [Surface.extent, hw, hh]
    rfl

theorem TextImage.blank_cellSize (width height width' height' cellSize : Float) :
    blank width height (blank width' height' cellSize).cellSize = blank width height cellSize := by
  by_cases h : 0.0 < cellSize
  · simp only [blank, h, if_true]
  · have h1 : (0.0 : Float) < 1.0 := by decide
    simp only [blank, h, h1, if_true, if_false]

namespace Editor

variable {σ τ : Type} [Surface σ] [Surface τ]

def bare (e : Editor σ) : Editor Extent :=
  e.withSurface (Surface.extent e.surface)

/-- What is seen after each call, up to the first that fails: the editor without what its surface
holds, what the call gave back and what it asked. -/
def trace (e : Editor σ) : List Call → List (Except Fault (Editor Extent × Reply))
  | [] => []
  | call :: calls =>
    match e.step call with
    | .error fault => [.error fault]
    | .ok (e, reply) => .ok (e.bare, reply) :: e.trace calls

variable {R : σ → τ → Prop} {e : Editor σ} {e' : Editor τ}

theorem Agree.bare (L : Surface.Lockstep R) (h : Agree R e e') : e'.bare = e.bare := by
  obtain ⟨t, ht, rfl⟩ := h
  have hs : Surface.extent t = Surface.extent e.surface := by
    rw [Surface.extent, L.width ht, L.height ht]
    rfl
  rw [Editor.bare, Editor.bare, ← hs]
  rfl

/-- Editors that agree are seen to do the same. -/
theorem Agree.trace (L : Surface.Lockstep R) (h : Agree R e e') (calls : List Call) :
    e'.trace calls = e.trace calls := by
  induction calls generalizing e e' with
  | nil => rfl
  | cons call calls ih =>
    have hs := step L h call
    simp only [Editor.trace]
    generalize e.step call = x at hs
    generalize e'.step call = y at hs
    cases hs with
    | error fault => rfl
    | ok hq =>
      simp only
      rw [hq.2, hq.1.bare L, ih hq.1]

/-- What an editor does can be told from it without what its surface holds. -/
theorem run_bare (hσ : Surface.TakesSize σ) (e : Editor σ) (calls : List Call) :
    e.bare.run calls = (e.run calls).map Editor.bare ∧ e.bare.replies calls = e.replies calls := by
  have L := hσ.lockstep Extent.takesSize
  have ha : Agree (fun s t => Surface.extent t = Surface.extent s) e e.bare := ⟨_, rfl, rfl⟩
  refine ⟨?_, ha.replies L calls⟩
  have hr := ha.run L calls
  generalize e.run calls = x at hr
  generalize e.bare.run calls = y at hr
  cases hr with
  | error fault => rfl
  | @ok m _ h =>
    obtain ⟨t, ht, rfl⟩ := h
    obtain rfl : t = Surface.extent m.surface := ht
    rfl

theorem trace_eq_of_extent (hσ : Surface.TakesSize σ) (hτ : Surface.TakesSize τ)
    (settings : Settings) {s : σ} {t : τ} (h : Surface.extent t = Surface.extent s)
    (calls : List Call) : (start settings t).trace calls = (start settings s).trace calls :=
  (agree_start (R := fun s t => Surface.extent t = Surface.extent s) h settings).trace
    (hσ.lockstep hτ) calls

/-- A run that draws ends with the frame that an editor on another surface of the size would show,
drawn on a fresh surface of the final size. -/
theorem run_shows {ν κ : Type} {R : Renewal τ ν} (K : R.Kind κ) (hσ : Surface.TakesSize σ)
    (settings : Settings) {s : σ} {t : τ} (h : Surface.extent t = Surface.extent s)
    (hu : R.Usable t) {calls : List Call} (hd : ∃ call ∈ calls, call.draws = true) :
    Alike (fun (e : Editor σ) (e' : Editor τ) => R.view e'.surface = R.view (e.frame.on
        (K.make (K.kind t) (Surface.width e.surface) (Surface.height e.surface))))
      ((start settings s).run calls) ((start settings t).run calls) := by
  have hs := agree_start (R := fun s t => Surface.extent t = Surface.extent s) h settings
  have hr := hs.run (hσ.lockstep K.takesSize) calls
  generalize hx : (start settings s).run calls = x at hr
  generalize hy : (start settings t).run calls = y at hr
  cases hr with
  | error fault => exact .error fault
  | @ok e e' ha =>
    have hshows : R.view e'.surface = R.view (e'.frame.on (R.fresh e'.surface)) :=
      shows_run R (e := start settings t) hu hy (Or.inr hd)
    have hkind : K.kind e'.surface = K.kind t := kind_run hy
    obtain ⟨t', ht, rfl⟩ := ha
    have hw : Surface.width t' = Surface.width e.surface := congrArg Extent.width ht
    have hh : Surface.height t' = Surface.height e.surface := congrArg Extent.height ht
    rw [K.fresh_eq, hkind] at hshows
    refine .ok (hshows.trans ?_)
    simp only [withSurface, hw, hh]
    rfl

end Editor

namespace Session

def calls (source : String) (confirmed : Bool) (events : List Event) : List Call :=
  .generate source :: events.map (call source confirmed)

theorem draws_calls (source : String) (confirmed : Bool) (events : List Event) :
    ∃ call ∈ calls source confirmed events, call.draws = true :=
  ⟨.generate source, List.mem_cons_self, rfl⟩

section Render

variable (settings : Settings) (source : String) (confirmed : Bool) (events : List Event)

def recorded : Except Fault (Editor Recording) :=
  play settings (Recording.blank settings.canvas.width settings.canvas.height) source confirmed
    events

/-- A document shows the frame that a recording ends with. -/
theorem render_vector : render settings .vector source confirmed events =
    (recorded settings source confirmed events).map fun e =>
      (e.frame.on (VectorImage.blank e.surface.width e.surface.height)).document := by
  have h := Editor.run_shows VectorImage.kind Recording.kind.takesSize settings
    (s := Recording.blank settings.canvas.width settings.canvas.height)
    (t := VectorImage.blank settings.canvas.width settings.canvas.height) rfl trivial
    (draws_calls source confirmed events)
  exact h.map_eq fun hq => congrArg VectorImage.document hq

/-- A text shows the frame that a recording ends with. -/
theorem render_text : render settings .text source confirmed events =
    (recorded settings source confirmed events).map fun e =>
      (e.frame.on (TextImage.blank e.surface.width e.surface.height
        settings.drawing.cellSize)).grid.text := by
  have hu := TextImage.usable_blank settings.canvas.width settings.canvas.height
    settings.drawing.cellSize
  have h := Editor.run_shows TextImage.kind Recording.kind.takesSize settings
    (s := Recording.blank settings.canvas.width settings.canvas.height) rfl hu
    (draws_calls source confirmed events)
  refine h.map_eq fun {e e'} hq => ?_
  have hc := TextImage.blank_cellSize e.surface.width e.surface.height settings.canvas.width
    settings.canvas.height settings.drawing.cellSize
  have hs : e'.surface = e.frame.on (TextImage.blank e.surface.width e.surface.height
    settings.drawing.cellSize) := hq.trans (congrArg e.frame.on hc)
  rw [hs]

end Render

end Session

namespace Editor

/-- No guard around the cells of a grid stops a run. -/
theorem canvas_after_run {settings : Settings} {t : TextImage}
    {x : Except Guarded.Breach Guarded.Canvas} (h : Guarded.Canvas.Mirrors t x) {calls : List Call}
    {e : Editor (Except Guarded.Breach Guarded.Canvas)}
    (he : (start settings x).run calls = .ok e) : ∃ canvas, e.surface = .ok canvas := by
  have hr := (agree_start h settings).run Guarded.Canvas.lockstep calls
  rw [he] at hr
  generalize (start settings t).run calls = z at hr
  cases hr with
  | ok ha =>
    obtain ⟨y, ⟨rows, rfl, -⟩, rfl⟩ := ha
    exact ⟨_, rfl⟩

/-- Editors on a recording, on a character grid with cells of any size and in a vector image, all of
one size, are seen to do the same at every call: they have the same diagram, tables, grip, zoom
factor and size, give and ask the same, and fail together. On a grid with guards around its cells
no call is stopped either. So both formats show the diagram of one editor at its zoom factor. -/
theorem same_on_all_surfaces (settings : Settings) {r : Recording} {t : TextImage}
    {v : VectorImage} (ht : Surface.extent t = Surface.extent r)
    (hv : Surface.extent v = Surface.extent r) (calls : List Call) :
    (start settings t).trace calls = (start settings r).trace calls ∧
    (start settings v).trace calls = (start settings r).trace calls ∧
    (∀ x, Guarded.Canvas.Mirrors t x →
      (start settings x).trace calls = (start settings r).trace calls ∧
        ∀ e, (start settings x).run calls = .ok e → ∃ canvas, e.surface = .ok canvas) ∧
    ∀ source confirmed events,
      Session.render settings .vector source confirmed events =
          (Session.recorded settings source confirmed events).map (fun e =>
            (e.frame.on (VectorImage.blank e.surface.width e.surface.height)).document) ∧
        Session.render settings .text source confirmed events =
          (Session.recorded settings source confirmed events).map fun e =>
            (e.frame.on (TextImage.blank e.surface.width e.surface.height
              settings.drawing.cellSize)).grid.text := by
  have htrace := trace_eq_of_extent Recording.kind.takesSize TextImage.kind.takesSize settings ht
    calls
  refine ⟨htrace, ?_, fun x hx => ⟨?_, fun e he => canvas_after_run hx he⟩,
    fun source confirmed events => ⟨?_, ?_⟩⟩
  · exact trace_eq_of_extent Recording.kind.takesSize VectorImage.kind.takesSize settings hv calls
  · exact ((agree_start hx settings).trace Guarded.Canvas.lockstep calls).trans htrace
  · exact Session.render_vector settings source confirmed events
  · exact Session.render_text settings source confirmed events

/-- The grid has smaller cells than the settings say, and no factor lies within the bounds. -/
theorem same_on_blank_surfaces :
    let settings : Settings :=
      { Settings.standard with interaction := ⟨5.0, 0.1, 2.0, 0.5, false⟩ }
    let calls : List Call := [.generate "create table a (id int)", .resize 400.0 300.0,
      .delete ⟨350.0, 150.0⟩ true, .scroll 1.0 true, .redraw]
    let seen := (start settings (Recording.blank 800.0 600.0)).trace calls
    Surface.extent (TextImage.blank 800.0 600.0 3.0) =
        Surface.extent (Recording.blank 800.0 600.0) ∧
      Surface.extent (VectorImage.blank 800.0 600.0) =
        Surface.extent (Recording.blank 800.0 600.0) ∧
      (start settings (TextImage.blank 800.0 600.0 3.0)).trace calls = seen ∧
      (start settings (VectorImage.blank 800.0 600.0)).trace calls = seen := by
  intro settings calls seen
  obtain ⟨ht, hv, -⟩ := same_on_all_surfaces settings (r := Recording.blank 800.0 600.0)
    (t := TextImage.blank 800.0 600.0 3.0) (v := VectorImage.blank 800.0 600.0) rfl rfl calls
  exact ⟨rfl, rfl, ht, hv⟩

end Editor

end SchemaSketch
