import SchemaSketch.Proofs.Editor.Display
import SchemaSketch.Proofs.Editor.Lockstep
import SchemaSketch.Proofs.Number.Doubles

/-!
The zoom factor and its bounds. Only a notch of the wheel brings the factor within the bounds: a
new editor starts at 1.0, wherever the bounds lie, and draws its frames at 1.0 until then.
-/
namespace SchemaSketch

def Call.notch : Call → Bool
  | .scroll delta modifier => !(!modifier || delta == 0.0)
  | _ => false

namespace InteractionSettings

def Within (bounds : InteractionSettings) (zoom : Float) : Prop :=
  bounds.minZoom ≤ zoom ∧ zoom ≤ bounds.maxZoom

instance (bounds : InteractionSettings) (zoom : Float) : Decidable (bounds.Within zoom) :=
  inferInstanceAs (Decidable (_ ∧ _))

structure Ordered (bounds : InteractionSettings) : Prop where
  min_finite : bounds.minZoom.isFinite = true
  max_finite : bounds.maxZoom.isFinite = true
  min_le_max : bounds.minZoom ≤ bounds.maxZoom
  step_finite : bounds.zoomStep.isFinite = true

variable {bounds : InteractionSettings}

theorem Ordered.finite (h : bounds.Ordered) {zoom : Float} (hz : bounds.Within zoom) :
    zoom.isFinite = true :=
  Doubles.isFinite_of_between h.min_finite h.max_finite hz.1 hz.2

end InteractionSettings

namespace Editor

open InteractionSettings

section Clamp

variable {bounds : InteractionSettings}

/-- Any number is clamped to a factor within the bounds. -/
theorem within_clampZoom? (hb : bounds.minZoom ≤ bounds.maxZoom) {zoom : Float}
    (hz : zoom.isNaN = false) : ∃ z, clampZoom? bounds zoom = some z ∧ bounds.Within z := by
  obtain ⟨hmin, hmax⟩ := Doubles.isNaN_of_le hb
  rw [clampZoom?, if_pos hb]
  refine ⟨_, rfl, ?_⟩
  split
  · exact ⟨Doubles.le_self hmin, hb⟩
  · next hl =>
    split
    · exact ⟨hb, Doubles.le_self hmax⟩
    · next hu => exact ⟨Doubles.le_of_not_lt hz hmin hl, Doubles.le_of_not_lt hmax hz hu⟩

end Clamp

variable {σ : Type} [Surface σ] {e e' : Editor σ} {call : Call} {reply : Reply}

theorem scroll_of_not_notch {delta : Float} {modifier : Bool}
    (hn : (Call.scroll delta modifier).notch = false) : e.scroll delta modifier = .ok e :=
  if_pos (by simpa only [Call.notch, Bool.not_eq_false'] using hn)

theorem scroll_of_notch {delta : Float} {modifier : Bool}
    (hn : (Call.scroll delta modifier).notch = true) :
    e.scroll delta modifier =
      match clampZoom? e.settings.interaction
        (e.zoom + if 0.0 < delta then -e.settings.interaction.zoomStep
          else e.settings.interaction.zoomStep) with
      | none => .error .emptyZoomRange
      | some zoom => .ok (redraw { e with zoom := zoom }) :=
  if_neg (by simpa only [Call.notch, Bool.not_eq_true', Bool.not_eq_true] using hn)

/-- A notch from a finite factor draws a frame at a factor within the bounds. -/
theorem step_notch (hb : e.settings.interaction.Ordered) (hz : e.zoom.isFinite = true)
    (hn : call.notch = true) :
    ∃ zoom, e.step call = .ok (redraw { e with zoom := zoom }, .silent) ∧
      e.settings.interaction.Within zoom := by
  cases call with
  | scroll delta modifier =>
    have hs := Doubles.isNaN_of_isFinite hb.step_finite
    have hd : (if 0.0 < delta then -e.settings.interaction.zoomStep
        else e.settings.interaction.zoomStep).isNaN = false := by
      split
      · exact Doubles.isNaN_neg hs
      · exact hs
    obtain ⟨zoom, hc, hw⟩ := within_clampZoom? hb.min_le_max (Doubles.isNaN_add hz hd)
    refine ⟨zoom, ?_, hw⟩
    simp only [step, scroll_of_notch hn, hc]
    rfl
  | _ => cases hn

/-- Nothing but a notch changes the factor, and nothing else can fail. -/
theorem step_of_not_notch (e : Editor σ) (hn : call.notch = false) :
    ∃ e' reply, e.step call = .ok (e', reply) ∧ e'.zoom = e.zoom := by
  cases call with
  | generate source | resize width height | release | redraw => exact ⟨_, _, rfl, rfl⟩
  | press pointer => exact ⟨_, _, rfl, (Edited.of_quiet (quiet_press pointer)).zoom⟩
  | move pointer => exact ⟨_, _, rfl, (edited_move pointer).zoom⟩
  | delete pointer confirmed => exact ⟨_, _, rfl, (edited_delete pointer confirmed).zoom⟩
  | rename pointer answer => exact ⟨_, _, rfl, (edited_rename pointer answer).zoom⟩
  | scroll delta modifier =>
    refine ⟨e, .silent, ?_, rfl⟩
    rw [step, scroll_of_not_notch hn]
    rfl

theorem zoom_of_not_notch (hn : call.notch = false) (hs : e.step call = .ok (e', reply)) :
    e'.zoom = e.zoom := by
  obtain ⟨m, r, hm, hz⟩ := step_of_not_notch e hn
  rw [hm] at hs
  cases hs
  exact hz

theorem zoom_run_of_no_notch {calls : List Call} (hn : ∀ call ∈ calls, call.notch = false)
    (hr : e.run calls = .ok e') : e'.zoom = e.zoom := by
  induction calls generalizing e with
  | nil =>
    cases hr
    rfl
  | cons call calls ih =>
    obtain ⟨m, reply, hs, hr⟩ := run_cons hr
    rw [List.forall_mem_cons] at hn
    rw [ih hn.2 hr, zoom_of_not_notch hn.1 hs]

theorem within_of_notch (hb : e.settings.interaction.Ordered) (hz : e.zoom.isFinite = true)
    (hn : call.notch = true) (hs : e.step call = .ok (e', reply)) :
    e'.settings.interaction.Within e'.zoom := by
  obtain ⟨zoom, hm, hw⟩ := step_notch hb hz hn
  rw [hm] at hs
  cases hs
  exact hw

theorem step_error_iff (e : Editor σ) (call : Call) (fault : Fault) :
    e.step call = .error fault ↔
      call.notch = true ∧ ¬ e.settings.interaction.minZoom ≤ e.settings.interaction.maxZoom := by
  cases hn : call.notch with
  | false =>
    obtain ⟨e', reply, hs, -⟩ := step_of_not_notch e hn
    simp [hs]
  | true =>
    cases call with
    | scroll delta modifier =>
      simp only [step, scroll_of_notch hn, clampZoom?, true_and]
      by_cases hb : e.settings.interaction.minZoom ≤ e.settings.interaction.maxZoom
      · simp [hb, Except.map]
      · simp [hb, Except.map]
    | _ => cases hn

/-- The first notch fails if the bounds are not in order, and nothing else fails. -/
theorem run_error_iff (e : Editor σ) (calls : List Call) (fault : Fault) :
    e.run calls = .error fault ↔
      (∃ call ∈ calls, call.notch = true) ∧
        ¬ e.settings.interaction.minZoom ≤ e.settings.interaction.maxZoom := by
  induction calls generalizing e with
  | nil => simp [run]
  | cons call calls ih =>
    have hs := step_error_iff e call fault
    simp only [run]
    cases hr : e.step call with
    | error other =>
      obtain ⟨hn, hb⟩ := (step_error_iff e call other).1 hr
      simp [hn, hb]
    | ok r =>
      have hn : ¬ (call.notch = true ∧
          ¬ e.settings.interaction.minZoom ≤ e.settings.interaction.maxZoom) := by
        rw [← hs, hr]
        intro he
        cases he
      simp only [ih, settings_step hr, List.mem_cons, exists_eq_or_imp]
      tauto

end Editor

structure Traced (σ : Type) where
  surface : σ
  factors : List Float

namespace Traced

variable {σ : Type} [Surface σ]

instance : Surface (Traced σ) where
  width t := Surface.width t.surface
  height t := Surface.height t.surface
  resize w h t := { t with surface := Surface.resize w h t.surface }
  clear t := { t with surface := Surface.clear t.surface }
  put m t := { t with surface := Surface.put m t.surface }
  openScope factor t := ⟨Surface.openScope factor t.surface, t.factors ++ [factor]⟩
  closeScope t := { t with surface := Surface.closeScope t.surface }

theorem foldl_put (marks : List Mark) (t : Traced σ) :
    marks.foldl (fun t m => Surface.put m t) t =
      { t with surface := marks.foldl (fun s m => Surface.put m s) t.surface } := by
  induction marks generalizing t with
  | nil => rfl
  | cons m marks ih => exact ih _

/-- Every frame opens one scope. -/
theorem on_frame (arrowLength zoom : Float) (d : Diagram) (t : Traced σ) :
    (Frame.drawing arrowLength zoom d).on t =
      ⟨(Frame.drawing arrowLength zoom d).on t.surface, t.factors ++ [zoom]⟩ := by
  rw [Frame.on_drawing, foldl_put, Frame.on_drawing]
  rfl

theorem lockstep : Surface.Lockstep fun (s : σ) (t : Traced σ) => t.surface = s where
  width h := h ▸ rfl
  height h := h ▸ rfl
  resize h _ _ := h ▸ rfl
  frame h _ _ _ := by rw [on_frame, h]

end Traced

namespace Editor

open InteractionSettings

variable {σ : Type} [Surface σ] {e e' : Editor (Traced σ)} {call : Call} {calls : List Call}
  {reply : Reply}

theorem factors_redraw (e : Editor (Traced σ)) :
    e.redraw.surface.factors = e.surface.factors ++ [e.zoom] :=
  congrArg Traced.factors (Traced.on_frame _ _ _ _)

/-- A call opens no scope, or one, at the factor it leaves the editor with. -/
theorem factors_step (hs : e.step call = .ok (e', reply)) :
    (e'.surface.factors = e.surface.factors ∧ call.draws = false) ∨
      e'.surface.factors = e.surface.factors ++ [e'.zoom] := by
  obtain ⟨⟨grip, rfl⟩, hd⟩ | ⟨m, rfl, -, hm | ⟨width, height, hm⟩⟩ := step_cases hs
  · exact Or.inl ⟨rfl, hd⟩
  · exact Or.inr ((factors_redraw m).trans (by rw [hm]; rfl))
  · exact Or.inr ((factors_redraw m).trans (by rw [hm]; rfl))

theorem mem_factors_run {factor : Float} (hf : factor ∈ e.surface.factors)
    (hr : e.run calls = .ok e') : factor ∈ e'.surface.factors := by
  refine run_preserves (P := fun m => factor ∈ m.surface.factors) (fun hf hs => ?_) hf hr
  obtain ⟨h, -⟩ | h := factors_step hs
  · exact h ▸ hf
  · exact h ▸ List.mem_append_left _ hf

structure StaysWithin (e : Editor (Traced σ)) : Prop where
  zoom : e.settings.interaction.Within e.zoom
  factors : ∀ factor ∈ e.surface.factors, e.settings.interaction.Within factor

theorem StaysWithin.of_step (h : ∀ factor ∈ e.surface.factors, e.settings.interaction.Within factor)
    (hs : e.step call = .ok (e', reply)) (hz : e'.settings.interaction.Within e'.zoom) :
    e'.StaysWithin := by
  refine ⟨hz, fun factor hf => ?_⟩
  obtain ⟨hfs, -⟩ | hfs := factors_step hs
  · rw [settings_step hs]
    exact h factor (hfs ▸ hf)
  · rw [hfs, List.mem_append, List.mem_singleton] at hf
    obtain hf | rfl := hf
    · rw [settings_step hs]
      exact h factor hf
    · exact hz

theorem within_zoom_step (hb : e.settings.interaction.Ordered)
    (hz : e.settings.interaction.Within e.zoom) (hs : e.step call = .ok (e', reply)) :
    e'.settings.interaction.Within e'.zoom := by
  cases hn : call.notch with
  | false =>
    rw [settings_step hs, zoom_of_not_notch hn hs]
    exact hz
  | true => exact within_of_notch hb (hb.finite hz) hn hs

theorem StaysWithin.run (h : e.StaysWithin) (hb : e.settings.interaction.Ordered)
    (hr : e.run calls = .ok e') : e'.StaysWithin := by
  refine (run_preserves (P := fun m => m.settings = e.settings ∧ m.StaysWithin)
    (fun {m _ _ _} hm hs => ?_) ⟨rfl, h⟩ hr).2
  obtain ⟨hms, hm⟩ := hm
  have hb : m.settings.interaction.Ordered := hms ▸ hb
  exact ⟨(settings_step hs).trans hms, .of_step hm.factors hs (within_zoom_step hb hm.zoom hs)⟩

/-- The factor stays where it was until a notch brings it within the bounds for good. -/
theorem within_zoom_run_iff (hb : e.settings.interaction.Ordered) (hz : e.zoom.isFinite = true)
    (hr : e.run calls = .ok e') :
    e.settings.interaction.Within e'.zoom ↔
      e.settings.interaction.Within e.zoom ∨ ∃ call ∈ calls, call.notch = true := by
  induction calls generalizing e with
  | nil =>
    cases hr
    simp
  | cons call calls ih =>
    obtain ⟨m, reply, hs, hr⟩ := run_cons hr
    have hms := settings_step hs
    cases hn : call.notch with
    | false =>
      have hmz := zoom_of_not_notch hn hs
      rw [← hms] at hb
      have hm := ih hb (hmz ▸ hz) hr
      rw [hms, hmz] at hm
      simpa [hn] using hm
    | true =>
      have hm := within_of_notch hb hz hn hs
      rw [← hms] at hb
      have hm := (ih hb (hb.finite hm) hr).2 (Or.inl hm)
      rw [hms] at hm
      simpa [hn] using hm

/-- Without tables there is nothing to hold, to move, to delete or to rename. -/
theorem step_start {τ : Type} [Surface τ] (settings : Settings) (s : τ) (hd : call.draws = false)
    (hn : call.notch = false) :
    ∃ reply, (start settings s).step call = .ok (start settings s, reply) := by
  cases call with
  | generate source | resize width height | redraw => cases hd
  | press pointer | move pointer | release | delete pointer confirmed | rename pointer answer =>
    exact ⟨_, rfl⟩
  | scroll delta modifier =>
    refine ⟨.silent, ?_⟩
    rw [step, scroll_of_not_notch hn]
    rfl

omit [Surface σ] in
theorem finite_start (settings : Settings) (s : σ) :
    (start settings s).zoom.isFinite = true := by
  change (1.0 : Float).isFinite = true
  decide

/-- Once the factor is within the bounds, the frames of a new editor are. -/
theorem factors_within_of_step {settings : Settings} (hb : settings.interaction.Ordered) {s : σ}
    {m : Editor (Traced σ)}
    (hs : (start settings (⟨s, []⟩ : Traced σ)).step call = .ok (m, reply))
    (hr : m.run calls = .ok e) (hz : settings.interaction.Within m.zoom) :
    ∀ factor ∈ e.surface.factors, settings.interaction.Within factor := by
  have hm : m.settings = settings := settings_step hs
  have hempty : ∀ factor ∈ (start settings (⟨s, []⟩ : Traced σ)).surface.factors,
      settings.interaction.Within factor := nofun
  have hw := (StaysWithin.of_step hempty hs (hm ▸ hz)).run (hm ▸ hb) hr
  have hw := hw.factors
  rwa [settings_run hr, hm] at hw

theorem zoom_mem_factors {m : Editor (Traced σ)} (hd : call.draws = true)
    (hs : e.step call = .ok (m, reply)) (hr : m.run calls = .ok e') :
    m.zoom ∈ e'.surface.factors := by
  refine mem_factors_run ?_ hr
  obtain ⟨-, hn⟩ | h := factors_step hs
  · rw [hd] at hn
    cases hn
  · exact h ▸ List.mem_append_right _ List.mem_cons_self

/-- Frames are drawn at 1.0 until the first notch. -/
theorem within_factors_run_iff {settings : Settings} (hb : settings.interaction.Ordered) {s : σ}
    (hr : (start settings (⟨s, []⟩ : Traced σ)).run calls = .ok e) :
    (∀ factor ∈ e.surface.factors, settings.interaction.Within factor) ↔
      settings.interaction.Within 1.0 ∨
        ∀ call ∈ calls.takeWhile (!·.notch), call.draws = false := by
  induction calls with
  | nil =>
    cases hr
    simp [start]
  | cons call calls ih =>
    obtain ⟨m, reply, hs, hr⟩ := run_cons hr
    cases hn : call.notch with
    | true =>
      have hw := within_of_notch hb (finite_start _ _) hn hs
      rw [settings_step hs] at hw
      simp only [List.takeWhile_cons, hn, Bool.not_true, Bool.false_eq_true, if_false]
      exact ⟨fun _ => Or.inr nofun, fun _ => factors_within_of_step hb hs hr hw⟩
    | false =>
      have hz : m.zoom = 1.0 := zoom_of_not_notch hn hs
      simp only [List.takeWhile_cons, hn, Bool.not_false, if_true, List.forall_mem_cons]
      cases hd : call.draws with
      | false =>
        obtain ⟨r, hstart⟩ := step_start settings (⟨s, []⟩ : Traced σ) hd hn
        rw [hstart] at hs
        cases hs
        simpa using ih hr
      | true =>
        refine ⟨fun h => Or.inl (h _ (hz ▸ zoom_mem_factors hd hs hr)), fun h => ?_⟩
        obtain h | ⟨h, -⟩ := h
        · exact factors_within_of_step hb hs hr (hz ▸ h)
        · cases h

/-- No call fails under finite bounds in order. Afterwards the factor is within them exactly if 1.0
is or there was a notch, and the factors of all frames are exactly if 1.0 is or no frame was drawn
before the first notch. The factors that are listed are those of an editor on the surface itself. -/
theorem zoom_within_iff {settings : Settings} (hb : settings.interaction.Ordered) (s : σ)
    (calls : List Call) :
    ∃ e, (start settings (⟨s, []⟩ : Traced σ)).run calls = .ok e ∧
      (start settings s).run calls = .ok (e.withSurface e.surface.surface) ∧
      (settings.interaction.Within e.zoom ↔
        settings.interaction.Within 1.0 ∨ ∃ call ∈ calls, call.notch = true) ∧
      ((∀ factor ∈ e.surface.factors, settings.interaction.Within factor) ↔
        settings.interaction.Within 1.0 ∨
          ∀ call ∈ calls.takeWhile (!·.notch), call.draws = false) := by
  cases hr : (start settings s).run calls with
  | error fault => exact absurd hb.min_le_max ((run_error_iff _ _ _).1 hr).2
  | ok e =>
    have h := (agree_start (R := fun s (t : Traced σ) => t.surface = s) (t := ⟨s, []⟩) rfl
      settings).run Traced.lockstep calls
    rw [hr] at h
    obtain ⟨-, ht, t, hst, rfl⟩ := h.of_ok
    have hz := within_zoom_run_iff (e := start settings ⟨s, []⟩) hb (finite_start _ _) ht
    refine ⟨_, ht, ?_, hz, within_factors_run_iff hb ht⟩
    simp only [withSurface, hst]

/-- 1.0 is not within these bounds, but the first call is a notch. -/
theorem zoom_within_after_notch :
    let settings : Settings :=
      { Settings.standard with interaction := ⟨5.0, 0.1, 1.5, 2.0, false⟩ }
    ∃ e, (start settings (⟨Recording.blank 800.0 600.0, []⟩ : Traced Recording)).run
        [.scroll 1.0 true, .generate "create table a (id int)", .scroll (-1.0) true] = .ok e ∧
      settings.interaction.Within e.zoom ∧
      ∀ factor ∈ e.surface.factors, settings.interaction.Within factor := by
  intro settings
  have hb : settings.interaction.Ordered := ⟨by decide, by decide, by decide, by decide⟩
  obtain ⟨e, hr, -, hz, hf⟩ := zoom_within_iff hb (Recording.blank 800.0 600.0)
    [.scroll 1.0 true, .generate "create table a (id int)", .scroll (-1.0) true]
  have hn : (Call.scroll 1.0 true).notch = true := by decide
  refine ⟨e, hr, hz.2 (Or.inr ⟨_, List.mem_cons_self, hn⟩), hf.2 (Or.inr ?_)⟩
  simp only [List.takeWhile_cons, hn]
  exact nofun

/-- Only 1.5 is within these bounds, but a new editor draws at 1.0. -/
theorem zoom_outside_bounds :
    let settings : Settings :=
      { Settings.standard with interaction := ⟨5.0, 0.1, 1.5, 1.5, false⟩ }
    settings.interaction.Ordered ∧
      ∃ e, (start settings (⟨Recording.blank 800.0 600.0, []⟩ : Traced Recording)).run
          [.generate ""] = .ok e ∧
        ¬ settings.interaction.Within e.zoom ∧
        ¬ ∀ factor ∈ e.surface.factors, settings.interaction.Within factor := by
  intro settings
  have hout : ¬ settings.interaction.Within 1.0 := by decide
  refine ⟨⟨by decide, by decide, by decide, by decide⟩, _, rfl, hout, fun h => hout (h 1.0 ?_)⟩
  rw [generate, relayout, factors_redraw]
  exact List.mem_append_right _ List.mem_cons_self

end Editor

end SchemaSketch
