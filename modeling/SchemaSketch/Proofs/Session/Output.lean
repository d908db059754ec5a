import SchemaSketch.Proofs.Editor.Labels
import SchemaSketch.Proofs.Editor.Relayout
import SchemaSketch.Proofs.Safety.Sessions
import SchemaSketch.Proofs.Schema.Names
import SchemaSketch.Proofs.Script.Reading

/-!
The text that a session ends with. Neither a schema nor a script can give a node a name with a line
feed in it, so the text has a line for each row of the grid, whatever was drawn and resized before.
-/
namespace SchemaSketch

theorem Schema.Solid.unbroken {name : String} (h : Solid name) : Unbroken name := by
  intro hfeed
  cases h '\n' hfeed

/-- A name that a script gives is part of one line. -/
theorem Script.unbroken_name {script : String} {events : List Event}
    (hs : Script.events script = .ok events) {pointer : Point} {name : String}
    (hn : .rename pointer (some name) ∈ events) : Unbroken name := by
  have hl : Text.Lines script.toList (Text.lines script.toList) := Text.lines_iff.1 rfl
  exact (name_of_denotes hl.no_line_feed ((eventsFrom_eq_ok_iff 1).1 hs) hn).2.2.1

namespace Session

variable {script source : String} {events : List (Event × Bool)}

def allCalls (source : String) (events : List (Event × Bool)) : List Call :=
  .generate source :: answeredCalls source events

theorem brings_generate (source : String) : (Call.generate source).Brings Unbroken :=
  fun table ht => (Schema.solid_ofText source table ht).mono fun _ h => h.unbroken

theorem brings_call (source : String) (confirmed : Bool) {event : Event}
    (h : ∀ pointer name, event = .rename pointer (some name) → Unbroken name) :
    (call source confirmed event).Brings Unbroken := by
  cases event with
  | generate => exact brings_generate source
  | rename pointer answer =>
    cases answer with
    | none => trivial
    | some name =>
      intro hfeed
      rw [String.toList_ofList] at hfeed
      exact h pointer name rfl (Text.mem_of_mem_trim hfeed)
  | zoom direction => cases direction <;> trivial
  | _ => trivial

theorem brings_allCalls (source : String)
    (hs : Script.events script = .ok (events.map Prod.fst)) :
    ∀ call ∈ allCalls source events, call.Brings Unbroken := by
  refine List.forall_mem_cons.2 ⟨brings_generate source, fun call hc => ?_⟩
  obtain ⟨⟨event, confirmed⟩, hx, rfl⟩ := List.mem_map.1 hc
  refine brings_call source confirmed ?_
  rintro pointer name rfl
  exact Script.unbroken_name hs (List.mem_map_of_mem hx)

/-- A session that gives a text ends with an editor whose image shows that text. -/
theorem run_of_renderAnswered {settings : Settings} {text : String}
    (hr : renderAnswered settings .text source events = .ok text) :
    ∃ e, (Editor.start settings (TextImage.blank settings.canvas.width settings.canvas.height
        settings.drawing.cellSize)).run (allCalls source events) = .ok e ∧
      e.surface.grid.text = text := by
  cases hp : playAnswered settings (TextImage.blank settings.canvas.width settings.canvas.height
      settings.drawing.cellSize) source events with
  | error fault => simp [renderAnswered, hp, Except.map] at hr
  | ok e =>
    refine ⟨e, hp, ?_⟩
    simpa [renderAnswered, hp, Except.map] using hr

/-- In a session that does not fail, the cells are at every call, and after every mark of its frame,
a rectangle of the size that goes with the surface, no side of which is longer than 2000, and no
name has a line feed in it. The text has a line for each row, none longer than a row, none with
white space at its end, and one empty line if there are no rows. -/
theorem text_output_in_shape (settings : Settings) (script source : String)
    (events : List (Event × Bool)) (text : String)
    (hs : Script.events script = .ok (events.map Prod.fst))
    (hr : renderAnswered settings .text source events = .ok text) :
    let image := TextImage.blank settings.canvas.width settings.canvas.height
      settings.drawing.cellSize
    (∀ before, before <+: allCalls source events →
      ∃ e, (Editor.start settings image).run before = .ok e ∧
        e.surface.Shaped ∧ e.surface.cellSize = image.cellSize ∧
        e.surface.grid.rows ≤ TextImage.maxSide ∧ e.surface.grid.columns ≤ TextImage.maxSide ∧
        (∀ marks, marks <+: Frame.marks settings.drawing.arrowLength e.diagram →
          (marks.foldl (fun s m => Surface.put m s)
            (Surface.openScope e.zoom (Surface.clear e.surface))).Shaped) ∧
        ∀ n ∈ e.diagram.nodes, '\n' ∉ n.2.name.toList) ∧
    (∃ e, (Editor.start settings image).run (allCalls source events) = .ok e ∧
      e.surface.grid.text = text ∧ Page e.surface.grid.rows e.surface.grid.columns text) ∧
    ∀ confirmed, (∀ x ∈ events, x.2 = confirmed) →
      render settings .text source confirmed (events.map Prod.fst) = .ok text := by
  intro image
  have hb := brings_allCalls source hs
  have htidy {calls : List Call} (hc : ∀ call ∈ calls, call.Brings Unbroken)
      {e : Editor TextImage} (he : (Editor.start settings image).run calls = .ok e) : e.Tidy :=
    (Editor.tidy_start settings (TextImage.shaped_blank _ _ _)).run hc he
  obtain ⟨last, hlast, htext⟩ := run_of_renderAnswered hr
  refine ⟨fun before hp => ?_, ⟨last, hlast, htext, ?_⟩, fun confirmed hc => ?_⟩
  · obtain ⟨e, he⟩ := Editor.run_prefix hp hlast
    have h := htidy (fun call hc => hb call (hp.subset hc)) he
    obtain ⟨hrows, hcolumns⟩ := h.shaped.le_maxSide
    refine ⟨e, he, h.shaped, ?_, hrows, hcolumns, fun marks hm => ?_, h.named.diagram⟩
    · exact Editor.kind_run (K := TextImage.kind) he
    · exact TextImage.shaped_marks _ e.zoom h.named.diagram e.surface hm
  · have h := (htidy hb hlast).shaped
    rw [← htext, h.sized.rows_eq]
    exact h.sized.page h.unbroken
  · rw [← renderAnswered_eq .text hc]
    exact hr

/-- A renamed table, a smaller image and a delete that is confirmed. -/
theorem text_output_in_shape_after_rename :
    let script := "rename 700 300 a b # c\nresize 400 300\ndelete 350 150\nzoom in"
    let events : List (Event × Bool) := [(.rename ⟨700.0, 300.0⟩ (some "a b"), true),
      (.resize 400.0 300.0, true), (.delete ⟨350.0, 150.0⟩, true), (.zoom .inwards, true)]
    ∃ text, Script.events script = .ok (events.map Prod.fst) ∧
      renderAnswered .standard .text "create table a (id int)" events = .ok text ∧
      render .standard .text "create table a (id int)" true (events.map Prod.fst) = .ok text ∧
      ∃ rows columns, Page rows columns text := by
  intro script events
  have hs : Script.events script = .ok (events.map Prod.fst) := by decide +kernel
  have hbounds : Settings.standard.interaction.minZoom ≤ Settings.standard.interaction.maxZoom := by
    decide
  cases hr : renderAnswered .standard .text "create table a (id int)" events with
  | error fault => exact absurd hbounds ((renderAnswered_error_iff _ _ _ _ _).1 hr).2
  | ok text =>
    obtain ⟨-, ⟨e, -, -, hp⟩, hone⟩ := text_output_in_shape .standard script _ events text hs hr
    exact ⟨text, hs, rfl, hone true (by simp [events]), _, _, hp⟩

end Session

end SchemaSketch
