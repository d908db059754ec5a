import SchemaSketch.Proofs.Editor.Zoom
import SchemaSketch.Proofs.Safety.Canvas
import SchemaSketch.Proofs.Safety.Layout
import SchemaSketch.Proofs.Safety.Parsing
import SchemaSketch.Session

/-!
Whole sessions under guards. A guard stops a session only where the editor fails as well: at a
notch of the wheel when no factor lies within the bounds. All others give their last frame. The
vector surface looks nothing up by its position and has no guards.
-/
namespace SchemaSketch

namespace Session

def answeredCalls (source : String) (events : List (Event × Bool)) : List Call :=
  events.map fun (event, confirmed) => call source confirmed event

def playAnswered {σ : Type} [Surface σ] (settings : Settings) (surface : σ) (source : String)
    (events : List (Event × Bool)) : Except Fault (Editor σ) :=
  ((Editor.start settings surface).generate source).run (answeredCalls source events)

def renderAnswered (settings : Settings) (format : Format) (source : String)
    (events : List (Event × Bool)) : Except Fault String :=
  let width := settings.canvas.width
  let height := settings.canvas.height
  match format with
  | .vector =>
    (playAnswered settings (VectorImage.blank width height) source events).map
      (·.surface.document)
  | .text =>
    (playAnswered settings (TextImage.blank width height settings.drawing.cellSize) source
      events).map (·.surface.grid.text)

variable {settings : Settings} {source : String} {events : List (Event × Bool)}

/-- With one answer to everything it is the session of `render`. -/
theorem renderAnswered_eq (format : Format) {confirmed : Bool}
    (hc : ∀ x ∈ events, x.2 = confirmed) :
    renderAnswered settings format source events =
      render settings format source confirmed (events.map Prod.fst) := by
  have hcalls : answeredCalls source events =
      (events.map Prod.fst).map (call source confirmed) := by
    rw [answeredCalls, List.map_map]
    apply List.map_congr_left
    rintro ⟨event, answer⟩ hx
    rw [show answer = confirmed from hc _ hx]
    rfl
  cases format with
  | vector => rw [renderAnswered, playAnswered, hcalls]; rfl
  | text => rw [renderAnswered, playAnswered, hcalls]; rfl

theorem source?_call {text : String} {confirmed : Bool} {event : Event}
    (h : text ∈ (call source confirmed event).source?) : text = source := by
  cases event with
  | generate => exact (Option.some_inj.1 h).symm
  | zoom direction => cases direction <;> cases h
  | _ => cases h

theorem notch_call {confirmed : Bool} {event : Event} :
    (call source confirmed event).notch = true ↔ ∃ direction, event = .zoom direction := by
  cases event with
  | zoom direction => cases direction <;> simp [call] <;> decide
  | _ => simp [call, Call.notch]

theorem notch_answeredCalls (source : String) (events : List (Event × Bool)) :
    (∃ call ∈ answeredCalls source events, call.notch = true) ↔
      ∃ direction, .zoom direction ∈ events.map Prod.fst := by
  constructor
  · rintro ⟨call, hcall, hn⟩
    obtain ⟨⟨event, confirmed⟩, hx, rfl⟩ := List.mem_map.1 hcall
    obtain ⟨direction, rfl⟩ := notch_call.1 hn
    exact ⟨direction, List.mem_map_of_mem hx⟩
  · rintro ⟨direction, h⟩
    obtain ⟨⟨event, confirmed⟩, hx, rfl⟩ := List.mem_map.1 h
    exact ⟨_, List.mem_map_of_mem hx, notch_call.2 ⟨direction, rfl⟩⟩

theorem playAnswered_error_iff {σ : Type} [Surface σ] (s : σ) (fault : Fault) :
    playAnswered settings s source events = .error fault ↔
      (∃ direction, .zoom direction ∈ events.map Prod.fst) ∧
        ¬ settings.interaction.minZoom ≤ settings.interaction.maxZoom := by
  rw [← notch_answeredCalls source]
  exact Editor.run_error_iff _ _ _

theorem renderAnswered_error_iff (settings : Settings) (format : Format) (source : String)
    (events : List (Event × Bool)) (fault : Fault) :
    renderAnswered settings format source events = .error fault ↔
      (∃ direction, .zoom direction ∈ events.map Prod.fst) ∧
        ¬ settings.interaction.minZoom ≤ settings.interaction.maxZoom := by
  have hmap {α β : Type} (x : Except Fault α) (f : α → β) :
      x.map f = .error fault ↔ x = .error fault := by
    cases x <;> simp [Except.map]
  cases format with
  | vector => exact (hmap _ _).trans (playAnswered_error_iff _ _)
  | text => exact (hmap _ _).trans (playAnswered_error_iff _ _)

end Session

def Fault.breach : Fault → Guarded.Breach
  | .emptyZoomRange => .emptyRange

namespace Guarded

section Calls

variable {σ : Type} [Surface σ]

def relayout (e : Editor σ) : Except Breach (Editor σ) := do
  let diagram ← radial e.settings.layout (Surface.width e.surface) (Surface.height e.surface)
    e.tables
  .ok (Editor.redraw { e with diagram := diagram, grip := .idle })

def generate (e : Editor σ) (source : String) : Except Breach (Editor σ) := do
  let tables ← ofText source
  relayout { e with tables := tables }

def resize (e : Editor σ) (width height : Float) : Except Breach (Editor σ) :=
  relayout { e with surface := Surface.resize width height e.surface }

def clamp (low high x : Float) : Except Breach Float := do
  ordered low high
  .ok (if x < low then low else if high < x then high else x)

def scroll (e : Editor σ) (delta : Float) (modifier : Bool) : Except Breach (Editor σ) :=
  if !modifier || delta == 0.0 then .ok e
  else do
    let bounds := e.settings.interaction
    let step := if 0.0 < delta then -bounds.zoomStep else bounds.zoomStep
    let zoom ← clamp bounds.minZoom bounds.maxZoom (e.zoom + step)
    .ok (Editor.redraw { e with zoom := zoom })

def step (e : Editor σ) : Call → Except Breach (Editor σ)
  | .generate source => generate e source
  | .resize width height => resize e width height
  | .press pointer => .ok (e.press pointer)
  | .move pointer => .ok (e.move pointer)
  | .release => .ok e.release
  | .delete pointer confirmed => .ok (e.delete pointer confirmed).1
  | .rename pointer answer => .ok (e.rename pointer answer).1
  | .scroll delta modifier => scroll e delta modifier
  | .redraw => .ok e.redraw

def run (e : Editor σ) : List Call → Except Breach (Editor σ)
  | [] => .ok e
  | call :: calls => do
    let e ← step e call
    run e calls

end Calls

def play {σ : Type} [Surface σ] (settings : Settings) (surface : σ) (source : String)
    (events : List (Event × Bool)) : Except Breach (Editor σ) := do
  let e ← generate (Editor.start settings surface) source
  run e (Session.answeredCalls source events)

def render (settings : Settings) (format : Format) (source : String)
    (events : List (Event × Bool)) : Except Breach String :=
  let width := settings.canvas.width
  let height := settings.canvas.height
  match format with
  | .vector => do
    let e ← play settings (VectorImage.blank width height) source events
    .ok e.surface.document
  | .text => do
    let canvas := Canvas.blank width height settings.drawing.cellSize
    let e ← play settings (.ok canvas : Except Breach Canvas) source events
    let canvas ← e.surface
    .ok canvas.image.grid.text

section Agreement

variable {σ : Type} [Surface σ] {e : Editor σ}

theorem relayout_eq (h : nodeCount e.tables < 2 ^ 32) : relayout e = .ok e.relayout := by
  rw [relayout, radial_eq h]
  rfl

theorem generate_eq {source : String} (h : nodeCount (Schema.ofText source) < 2 ^ 32)
    (e : Editor σ) : generate e source = .ok (e.generate source) := by
  rw [generate, ofText_eq]
  exact relayout_eq (e := { e with tables := Schema.ofText source }) h

theorem scroll_eq (e : Editor σ) (delta : Float) (modifier : Bool) :
    scroll e delta modifier = (e.scroll delta modifier).mapError Fault.breach := by
  unfold scroll Editor.scroll
  split
  · rfl
  · simp only [clamp, ordered, Editor.clampZoom?]
    split
    · rfl
    · rfl

/-- The guards of a call stop it exactly where it fails anyway. -/
theorem step_eq {call : Call} (h : nodeCount e.tables < 2 ^ 32)
    (hs : ∀ source ∈ call.source?, nodeCount (Schema.ofText source) < 2 ^ 32) :
    step e call = ((e.step call).map Prod.fst).mapError Fault.breach := by
  cases call with
  | generate source => exact generate_eq (hs source rfl) e
  | resize width height =>
    exact relayout_eq (e := { e with surface := Surface.resize width height e.surface }) h
  | scroll delta modifier =>
    rw [step, scroll_eq, Editor.step]
    cases e.scroll delta modifier <;> rfl
  | _ => rfl

theorem run_eq {calls : List Call} (h : nodeCount e.tables < 2 ^ 32)
    (hs : ∀ call ∈ calls, ∀ source ∈ call.source?, nodeCount (Schema.ofText source) < 2 ^ 32) :
    run e calls = (e.run calls).mapError Fault.breach := by
  induction calls generalizing e with
  | nil => rfl
  | cons call calls ih =>
    rw [List.forall_mem_cons] at hs
    rw [run, step_eq h hs.1, Editor.run]
    cases hc : e.step call with
    | error fault => rfl
    | ok r =>
      have ht : nodeCount r.1.tables < 2 ^ 32 := by
        rw [Editor.tables_step hc]
        cases hcall : call.source? with
        | none => exact h
        | some source => exact hs.1 source hcall
      exact ih ht hs.2

end Agreement

section Renders

variable {settings : Settings} {source : String} {events : List (Event × Bool)}

theorem play_eq (h : nodeCount (Schema.ofText source) < 2 ^ 32) {σ : Type} [Surface σ] (s : σ) :
    play settings s source events =
      (Session.playAnswered settings s source events).mapError Fault.breach := by
  rw [play, generate_eq h]
  refine run_eq h fun call hc text ht => ?_
  obtain ⟨x, -, rfl⟩ := List.mem_map.1 hc
  rwa [Session.source?_call ht]

/-- On an image and on its canvas sessions end with the same text. -/
theorem text_of_alike {x : Except Fault (Editor TextImage)}
    {y : Except Fault (Editor (Except Breach Canvas))}
    (h : Alike (Editor.Agree Canvas.Mirrors) x y) :
    (do
      let e ← y.mapError Fault.breach
      let canvas ← e.surface
      .ok canvas.image.grid.text) = (x.map (·.surface.grid.text)).mapError Fault.breach := by
  cases h with
  | error fault => rfl
  | ok h =>
    obtain ⟨t, ⟨rows, rfl, -⟩, rfl⟩ := h
    rfl

theorem render_eq (h : nodeCount (Schema.ofText source) < 2 ^ 32) (format : Format) :
    render settings format source events =
      (Session.renderAnswered settings format source events).mapError Fault.breach := by
  cases format with
  | vector =>
    simp only [render, Session.renderAnswered, play_eq h]
    generalize Session.playAnswered _ (VectorImage.blank _ _) source events = x
    cases x <;> rfl
  | text =>
    have hblank := Canvas.mirrors_blank settings.canvas.width settings.canvas.height
      settings.drawing.cellSize
    have hstart := (Editor.agree_start hblank settings).generate Canvas.lockstep source
    simp only [render, Session.renderAnswered, play_eq h]
    exact text_of_alike (hstart.run Canvas.lockstep (Session.answeredCalls source events))

/-- A session fails exactly if an event zooms although no factor lies within the bounds. Every
other one gives a text, which is the one of `Session.render` if all questions get one answer. -/
theorem render_fails_iff (settings : Settings) (format : Format) (source : String)
    (events : List (Event × Bool)) (h : nodeCount (Schema.ofText source) < 2 ^ 32) :
    (∀ breach, render settings format source events = .error breach ↔
      breach = .emptyRange ∧ (∃ direction, .zoom direction ∈ events.map Prod.fst) ∧
        ¬ settings.interaction.minZoom ≤ settings.interaction.maxZoom) ∧
    ((∃ text, render settings format source events = .ok text) ↔
      ((∃ direction, .zoom direction ∈ events.map Prod.fst) →
        settings.interaction.minZoom ≤ settings.interaction.maxZoom)) ∧
    ∀ confirmed, (∀ x ∈ events, x.2 = confirmed) →
      render settings format source events =
        (Session.render settings format source confirmed (events.map Prod.fst)).mapError
          Fault.breach := by
  have hf := Session.renderAnswered_error_iff settings format source events .emptyZoomRange
  rw [render_eq h]
  refine ⟨fun breach => ?_, ?_, fun confirmed hc => ?_⟩
  · rw [← hf]
    cases Session.renderAnswered settings format source events with
    | ok text => simp [Except.mapError]
    | error fault => simp [Except.mapError, Fault.breach, eq_comm]
  · rw [← Decidable.not_and_not_right, ← hf]
    cases Session.renderAnswered settings format source events with
    | ok text => simp [Except.mapError]
    | error fault => simp [Except.mapError]
  · rw [Session.renderAnswered_eq format hc]

/-- The lower bound is no number. A notch fails, and without one there is a text. -/
theorem render_fails_without_bound :
    let settings : Settings :=
      { Settings.standard with interaction := ⟨5.0, 0.1, 0.0 / 0.0, 2.0, false⟩ }
    let source := "create table a (id int)"
    nodeCount (Schema.ofText source) < 2 ^ 32 ∧
      render settings .text source [(.release, true), (.zoom .outwards, true)] =
        .error .emptyRange ∧
      ∃ text, render settings .text source [(.release, true), (.generate, false)] = .ok text := by
  intro settings source
  have h : nodeCount (Schema.ofText source) < 2 ^ 32 := by decide +kernel
  have hb : ¬ settings.interaction.minZoom ≤ settings.interaction.maxZoom := by decide
  refine ⟨h, ?_, ?_⟩
  · obtain ⟨hf, -⟩ := render_fails_iff settings .text source
      [(.release, true), (.zoom .outwards, true)] h
    exact (hf .emptyRange).2 ⟨rfl, ⟨.outwards, by simp⟩, hb⟩
  · obtain ⟨-, ht, -⟩ := render_fails_iff settings .text source
      [(.release, true), (.generate, false)] h
    exact ht.2 (by simp)

end Renders

end Guarded

end SchemaSketch
