import SchemaSketch.Proofs.Editor.Calls
import SchemaSketch.Proofs.Surface.Renewal

/-!
What the surface of an editor shows. Once a frame was drawn, after every call the surface shows
the current diagram at the current zoom, and nothing that was drawn earlier.
-/
namespace SchemaSketch.Editor

variable {σ ν : Type} [Surface σ] {e e' : Editor σ}

/-- The surface shows what the current frame would show on a fresh surface of the same size. -/
def Shows (R : Renewal σ ν) (e : Editor σ) : Prop :=
  R.view e.surface = R.view (e.frame.on (R.fresh e.surface))

theorem shows_redraw (R : Renewal σ ν) (hu : R.Usable e.surface) :
    R.Usable e.redraw.surface ∧ Shows R e.redraw := by
  refine ⟨R.usable_frame hu _ _ _, ?_⟩
  have hf : R.fresh e.redraw.surface = R.fresh e.surface := R.fresh_frame hu _ _ _
  rw [Shows, hf]
  exact R.view_frame hu _ _ _

theorem shows_of_drawn (R : Renewal σ ν) (hu : R.Usable e.surface) (h : Drawn e e') :
    R.Usable e'.surface ∧ Shows R e' := by
  obtain ⟨m, rfl, -, hs | ⟨width, height, hs⟩⟩ := h
  · exact shows_redraw R (hs ▸ hu)
  · exact shows_redraw R (hs ▸ R.usable_resize hu width height)

theorem settings_step {call : Call} {reply : Reply} (hs : e.step call = .ok (e', reply)) :
    e'.settings = e.settings := by
  obtain ⟨⟨grip, rfl⟩, -⟩ | ⟨m, rfl, hm, -⟩ := step_cases hs
  · rfl
  · exact hm

theorem settings_run {calls : List Call} (hr : e.run calls = .ok e') :
    e'.settings = e.settings :=
  run_preserves (P := fun m => m.settings = e.settings)
    (fun h hs => (settings_step hs).trans h) rfl hr

theorem usable_step (R : Renewal σ ν) {call : Call} {reply : Reply} (hu : R.Usable e.surface)
    (hs : e.step call = .ok (e', reply)) : R.Usable e'.surface := by
  obtain ⟨⟨grip, rfl⟩, -⟩ | hd := step_cases hs
  · exact hu
  · exact (shows_of_drawn R hu hd).1

/-- A call shows the current diagram if it draws, and keeps it shown if it does not. -/
theorem shows_step (R : Renewal σ ν) {call : Call} {reply : Reply} (hu : R.Usable e.surface)
    (hs : e.step call = .ok (e', reply)) (h : Shows R e ∨ call.draws = true) : Shows R e' := by
  obtain ⟨⟨grip, rfl⟩, hq⟩ | hd := step_cases hs
  · obtain h | h := h
    · exact h
    · simp [hq] at h
  · exact (shows_of_drawn R hu hd).2

theorem shows_run (R : Renewal σ ν) {calls : List Call} (hu : R.Usable e.surface)
    (hr : e.run calls = .ok e') (h : Shows R e ∨ ∃ call ∈ calls, call.draws = true) :
    Shows R e' := by
  induction calls generalizing e with
  | nil =>
    cases hr
    simpa using h
  | cons call calls ih =>
    obtain ⟨m, reply, hs, hr⟩ := run_cons hr
    refine ih (usable_step R hu hs) hr ?_
    obtain h | ⟨c, hc, hd⟩ := h
    · exact Or.inl (shows_step R hu hs (Or.inl h))
    · obtain rfl | hc := List.mem_cons.1 hc
      · exact Or.inl (shows_step R hu hs (Or.inr hd))
      · exact Or.inr ⟨c, hc, hd⟩

def Shown (R : Renewal σ ν) (e : Editor σ) : Prop :=
  e.diagram = .empty ∨ Shows R e

theorem shown_step (R : Renewal σ ν) {call : Call} {reply : Reply} (hu : R.Usable e.surface)
    (hs : e.step call = .ok (e', reply)) (h : Shown R e) : Shown R e' := by
  obtain ⟨⟨grip, rfl⟩, -⟩ | hd := step_cases hs
  · exact h
  · exact Or.inr (shows_of_drawn R hu hd).2

theorem shown_run (R : Renewal σ ν) {settings : Settings} {s : σ} {calls : List Call}
    (hu : R.Usable s) (hr : (start settings s).run calls = .ok e) :
    R.Usable e.surface ∧ Shown R e :=
  run_preserves (P := fun m => R.Usable m.surface ∧ Shown R m)
    (fun h hs => ⟨usable_step R h.1 hs, shown_step R h.1 hs h.2⟩) ⟨hu, Or.inl rfl⟩ hr

theorem Shown.of_hit? {R : Renewal σ ν} (h : Shown R e) {pointer : Point} {address : Address}
    (hp : e.diagram.hit? pointer = some address) : Shows R e := by
  obtain hd | h := h
  · rw [hd] at hp
    cases hp
  · exact h

/-- After calls of which one draws, each surface holds what drawing the current diagram at the
current zoom puts on a blank surface of its size. What was drawn on the surface before the editor
had it leaves no trace either. -/
theorem current_frame_after_run (settings : Settings) (before : Drawing)
    (width height cellSize : Float) (calls : List Call)
    (hd : ∃ call ∈ calls, call.draws = true) :
    (∀ e, (start settings (before.on (Recording.blank width height))).run calls = .ok e →
      e.surface.commands =
        ((Frame.drawing settings.drawing.arrowLength e.zoom e.diagram).on
          (Recording.blank e.surface.width e.surface.height)).commands) ∧
    (∀ e, (start settings (before.on (TextImage.blank width height cellSize))).run calls = .ok e →
      e.surface =
        (Frame.drawing settings.drawing.arrowLength e.zoom e.diagram).on
          (TextImage.blank e.surface.width e.surface.height e.surface.cellSize)) ∧
    ∀ e, (start settings (before.on (VectorImage.blank width height))).run calls = .ok e →
      e.surface =
        (Frame.drawing settings.drawing.arrowLength e.zoom e.diagram).on
          (VectorImage.blank e.surface.width e.surface.height) := by
  refine ⟨fun e hr => ?_, fun e hr => ?_, fun e hr => ?_⟩
  · have h := shows_run Recording.renewal trivial hr (Or.inr hd)
    rw [Shows, frame, settings_run hr] at h
    exact h
  · have hu : TextImage.renewal.Usable
        (start settings (before.on (TextImage.blank width height cellSize))).surface :=
      (TextImage.usable_blank width height cellSize).on before
    have h := shows_run TextImage.renewal hu hr (Or.inr hd)
    rw [Shows, frame, settings_run hr] at h
    exact h
  · have h := shows_run VectorImage.renewal trivial hr (Or.inr hd)
    rw [Shows, frame, settings_run hr] at h
    exact h

/-- Two sizes, two zooms and a deleted node, on a grid that something was drawn on before. -/
theorem current_frame_after_resize_and_delete :
    ∃ e, (start .standard ((Drawing.ofMarks [.line ⟨0.0, 0.0⟩ ⟨50.0, 50.0⟩]).on
        (TextImage.blank 800.0 600.0 10.0))).run
          [.generate "create table a (id int)", .scroll (-1.0) true, .resize 400.0 400.0,
            .delete ⟨400.0, 200.0⟩ true] = .ok e ∧
      e.surface =
        (Frame.drawing Settings.standard.drawing.arrowLength e.zoom e.diagram).on
          (TextImage.blank e.surface.width e.surface.height e.surface.cellSize) := by
  have hr : ∃ e, (start .standard ((Drawing.ofMarks [.line ⟨0.0, 0.0⟩ ⟨50.0, 50.0⟩]).on
      (TextImage.blank 800.0 600.0 10.0))).run
        [.generate "create table a (id int)", .scroll (-1.0) true, .resize 400.0 400.0,
          .delete ⟨400.0, 200.0⟩ true] = .ok e := ⟨_, rfl⟩
  obtain ⟨e, he⟩ := hr
  have hd : ∃ call ∈ [Call.generate "create table a (id int)", .scroll (-1.0) true,
      .resize 400.0 400.0, .delete ⟨400.0, 200.0⟩ true], call.draws = true :=
    ⟨_, List.mem_cons_self, rfl⟩
  exact ⟨e, he, (current_frame_after_run _ _ 800.0 600.0 10.0 _ hd).2.1 e he⟩

end SchemaSketch.Editor
